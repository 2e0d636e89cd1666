import Mathlib
import Trust.Authority.Authority
import Trust.Canonical.Encoding

/-!
# The canonical bytes of an authority

The JSON document of an authority, and what its canonical bytes determine.
`encoding/json` replaces every byte that is not UTF-8 by U+FFFD, and it prints
the offset of a zone in whole minutes.  Up to these two losses and the sign of
zero the bytes determine every field that is hashed.
-/

namespace Trust.Authority

open Lib Canonical

/-! ## The document -/

section Document

variable (conv : Strconv)

def Capability.json (c : Capability) : Json Literal :=
  .struct [("namespace", some (.string c.ns)), ("name", some (.string c.name))]

def TimeWindow.json (w : TimeWindow) : Json Literal :=
  .struct [("start", some (.time w.start)), ("end", some (.time w.stop))]

def Quantity.json (q : Quantity) : Json Literal :=
  .struct [("unit", some (.string q.unit)), ("limit", some (.int q.limit))]

def Monetary.json (m : Monetary) : Json Literal :=
  .struct [("currency", some (.string m.currency)),
    ("limit", some (.atom (floatLiteral conv m.limit)))]

def Scope.json (s : Scope) : Json Literal :=
  .struct [("resources", Json.strings? s.resources), ("subjects", Json.strings? s.subjects),
    ("actions", Json.strings? s.actions), ("organizations", Json.strings? s.organizations),
    ("geography", Json.strings? s.geography), ("channels", Json.strings? s.channels),
    ("timeWindow", s.timeWindow.map TimeWindow.json), ("quantity", s.quantity.map Quantity.json),
    ("monetary", s.monetary.map (Monetary.json conv))]

def Validity.json (v : Validity) : Json Literal :=
  .struct [("notBefore", some (.time v.notBefore)), ("notAfter", some (.time v.notAfter))]

def DelegationConstraints.json (d : DelegationConstraints) : Json Literal :=
  .struct [("maxDepth", d.maxDepth.map .int)]

def Proof.json (p : Proof) : Json Literal :=
  .struct [("algorithm", some (.int p.algorithm)), ("keyId", some (.string p.keyID)),
    ("signature", Json.bytes? p.signature)]

/-- A nil slice is `null`. -/
def capabilitiesJSON : NilSlice Capability → Json Literal
  | none => .null
  | some cs => .arr (cs.map Capability.json)

def json (a : Authority) : Json Literal :=
  .struct [("subject", some (.string a.subject)), ("parent", a.parent.map .string),
    ("capabilities", some (capabilitiesJSON a.capabilities)),
    ("scope", some (a.scope.json conv)), ("validity", some a.validity.json),
    ("delegationConstraints", some a.delegationConstraints.json),
    ("status", some (.int a.status)), ("proof", some a.proof.json)]

/-- The values of a scope that `encoding/json` does not take, in the order of the fields. -/
def Scope.encodable (s : Scope) : Except String Unit := do
  match s.timeWindow with
  | none => pure ()
  | some w => do
      Json.checkTime w.start
      Json.checkTime w.stop
  match s.monetary with
  | none => pure ()
  | some m => Json.checkFloat m.limit

def encodable (a : Authority) : Except String Unit := do
  a.scope.encodable
  Json.checkTime a.validity.notBefore
  Json.checkTime a.validity.notAfter

theorem Capability.wellFormed_json (c : Capability) : c.json.wellFormed = true :=
  Json.wellFormed_struct (by simp) (by simp)

theorem Scope.wellFormed_json (s : Scope) : (s.json conv).wellFormed = true := by
  refine Json.wellFormed_struct (by simp) ?_
  have hwindow : ∀ w : TimeWindow, w.json.wellFormed = true := fun w ↦
    Json.wellFormed_struct (by simp) (by simp)
  have hquantity : ∀ q : Quantity, q.json.wellFormed = true := fun q ↦
    Json.wellFormed_struct (by simp) (by simp)
  have hmonetary : ∀ m : Monetary, (m.json conv).wellFormed = true := fun m ↦
    Json.wellFormed_struct (by simp) (by simp)
  simp [hwindow, hquantity, hmonetary]

theorem wellFormed_json (a : Authority) : (a.json conv).wellFormed = true := by
  refine Json.wellFormed_struct (by simp) ?_
  have hcapabilities : (capabilitiesJSON a.capabilities).wellFormed = true := by
    cases a.capabilities with
    | none => rfl
    | some cs => simp [capabilitiesJSON, Capability.wellFormed_json]
  have hvalidity : a.validity.json.wellFormed = true :=
    Json.wellFormed_struct (by simp) (by simp)
  have hconstraints : a.delegationConstraints.json.wellFormed = true :=
    Json.wellFormed_struct (by simp) (by simp)
  have hproof : a.proof.json.wellFormed = true := Json.wellFormed_struct (by simp) (by simp)
  simp [hcapabilities, hvalidity, hconstraints, hproof, Scope.wellFormed_json]

theorem Capability.depth_json (c : Capability) : c.json.depth ≤ 1 :=
  Json.depth_struct_le (by simp)

theorem Scope.depth_json (s : Scope) : (s.json conv).depth ≤ 2 := by
  refine Json.depth_struct_le ?_
  have hwindow : ∀ w : TimeWindow, w.json.depth ≤ 1 := fun w ↦ Json.depth_struct_le (by simp)
  have hquantity : ∀ q : Quantity, q.json.depth ≤ 1 := fun q ↦ Json.depth_struct_le (by simp)
  have hmonetary : ∀ m : Monetary, (m.json conv).depth ≤ 1 := fun m ↦
    Json.depth_struct_le (by simp)
  simp [hwindow, hquantity, hmonetary]

theorem depth_json (a : Authority) : (a.json conv).depth ≤ 3 := by
  refine Json.depth_struct_le ?_
  have hcapabilities : (capabilitiesJSON a.capabilities).depth ≤ 2 := by
    cases a.capabilities with
    | none => exact Nat.zero_le _
    | some cs => simp [capabilitiesJSON, Json.depth_arr_le, Capability.depth_json]
  have hvalidity : a.validity.json.depth ≤ 2 := Json.depth_struct_le (by simp)
  have hconstraints : a.delegationConstraints.json.depth ≤ 2 := Json.depth_struct_le (by simp)
  have hproof : a.proof.json.depth ≤ 2 := Json.depth_struct_le (by simp)
  simp [hcapabilities, hvalidity, hconstraints, hproof, Scope.depth_json]

def document (a : Authority) : Except String Document := do
  a.encodable
  return ⟨a.json conv, a.wellFormed_json conv, (a.depth_json conv).trans (by norm_num)⟩

end Document

def unsigned (a : Authority) : Authority := { a with proof := { a.proof with signature := [] } }

/-- The bytes whose digest is the identity of an authority. -/
def canonicalBytes (codec : Codec Authority) (conv : Strconv) (a : Authority) :
    Outcome Canonical.Err GoString := jsonCanonicalize codec conv a.unsigned

/-- The digests of the environment are those of canonical JSON. -/
def Env.HashesJSON {Key : Type} (env : Env Key) (codec : Codec Authority) (conv : Strconv)
    (sha256 : GoString → Digest) : Prop :=
  ∀ a d, env.hashAuthority a = .ok d ↔
    ∃ bytes, jsonCanonicalize codec conv a = .ok bytes ∧ sha256 bytes = d

theorem canonicalHash_eq_ok_iff {Key : Type} {env : Env Key} {codec : Codec Authority}
    {conv : Strconv} {sha256 : GoString → Digest} (henv : env.HashesJSON codec conv sha256)
    {a : Authority} {d : Digest} : canonicalHash env (some a) = .ok d ↔
      ∃ bytes, canonicalBytes codec conv a = .ok bytes ∧ sha256 bytes = d := by
  rw [canonicalHash, Outcome.ofExcept_eq_ok_iff]
  exact henv a.unsigned d

/-! ## Strings and times -/

section Map

variable (f : GoString → GoString) (g : Time → Time) (h : Float64 → Float64)

def Capability.map (c : Capability) : Capability := ⟨f c.ns, f c.name⟩

def TimeWindow.map (w : TimeWindow) : TimeWindow := ⟨g w.start, g w.stop⟩

def Quantity.map (q : Quantity) : Quantity := { q with unit := f q.unit }

def Monetary.map (m : Monetary) : Monetary := ⟨f m.currency, h m.limit⟩

def Scope.map (s : Scope) : Scope where
  resources := s.resources.map f
  subjects := s.subjects.map f
  actions := s.actions.map f
  organizations := s.organizations.map f
  geography := s.geography.map f
  channels := s.channels.map f
  timeWindow := s.timeWindow.map (TimeWindow.map g)
  quantity := s.quantity.map (Quantity.map f)
  monetary := s.monetary.map (Monetary.map f h)

def Validity.map (v : Validity) : Validity := ⟨g v.notBefore, g v.notAfter⟩

def Proof.map (p : Proof) : Proof := { p with keyID := f p.keyID }

/-- Change every string, time and double of an authority. -/
def map (a : Authority) : Authority where
  subject := f a.subject
  parent := a.parent.map f
  capabilities := Option.map (List.map (Capability.map f)) a.capabilities
  scope := a.scope.map f g h
  validity := a.validity.map g
  delegationConstraints := a.delegationConstraints
  status := a.status
  proof := a.proof.map f

end Map

def Scope.strings (s : Scope) : List GoString :=
  s.dimensions.flatMap Prod.snd ++ s.quantity.toList.map Quantity.unit ++
    s.monetary.toList.map Monetary.currency

def strings (a : Authority) : List GoString :=
  a.subject :: (a.parent.toList ++
    (Option.getD a.capabilities []).flatMap (fun c ↦ [c.ns, c.name]) ++
      a.scope.strings ++ [a.proof.keyID])

def Scope.times (s : Scope) : List Time :=
  s.timeWindow.toList.flatMap fun w ↦ [w.start, w.stop]

def times (a : Authority) : List Time :=
  a.scope.times ++ [a.validity.notBefore, a.validity.notAfter]

/-- The fields that are hashed; the two zeros are equal. -/
def hashed (a : Authority) : Authority := a.unsigned.map id id unsignedZero

def printed (a : Authority) : Authority :=
  a.unsigned.map Utf8.coerce Rfc3339.printed unsignedZero

section Map

variable {f f' : GoString → GoString} {g g' : Time → Time} {h : Float64 → Float64} (a : Authority)

theorem strings_map : (a.map f g h).strings = a.strings.map f := by
  have hcapabilities : ∀ cs : NilSlice Capability,
      ((Option.map (List.map (Capability.map f)) cs).getD []).flatMap (fun c ↦ [c.ns, c.name]) =
        ((Option.getD cs []).flatMap fun c ↦ [c.ns, c.name]).map f := by
    rintro (- | cs)
    · rfl
    · simp [List.flatMap_map, List.map_flatMap, Capability.map]
  simp only [strings, map, hcapabilities, Scope.strings, Scope.dimensions, Scope.map]
  cases a.parent <;> cases a.scope.quantity <;> cases a.scope.monetary <;>
    simp [Quantity.map, Monetary.map, Proof.map]

theorem times_map : (a.map f g h).times = a.times.map g := by
  simp only [times, Scope.times, map, Scope.map, Validity.map]
  cases a.scope.timeWindow <;> simp [TimeWindow.map]

variable {a}

theorem Scope.map_congr {s : Scope} (hf : ∀ x ∈ s.strings, f x = f' x)
    (hg : ∀ w ∈ s.timeWindow, w.map g = w.map g') : s.map f g h = s.map f' g' h := by
  simp only [Scope.strings, Scope.dimensions, List.flatMap_cons, List.flatMap_nil,
    List.forall_mem_append, List.forall_mem_map, Option.mem_toList] at hf
  obtain ⟨⟨⟨hres, hsub, hact, horg, hgeo, hchan, -⟩, hquantity⟩, hmonetary⟩ := hf
  have hq : s.quantity.map (Quantity.map f) = s.quantity.map (Quantity.map f') :=
    Option.map_congr fun q hq ↦ congrArg (Quantity.mk · q.limit) (hquantity q hq)
  have hm : s.monetary.map (Monetary.map f h) = s.monetary.map (Monetary.map f' h) :=
    Option.map_congr fun m hm ↦ congrArg (Monetary.mk · (h m.limit)) (hmonetary m hm)
  rw [Scope.map, Scope.map, List.map_congr_left hres, List.map_congr_left hsub,
    List.map_congr_left hact, List.map_congr_left horg, List.map_congr_left hgeo,
    List.map_congr_left hchan, Option.map_congr hg, hq, hm]

theorem map_congr (hf : ∀ s ∈ a.strings, f s = f' s) (hg : ∀ t ∈ a.times, g t = g' t) :
    a.map f g h = a.map f' g' h := by
  simp only [strings, List.forall_mem_cons, List.forall_mem_append, List.mem_flatMap,
    Option.mem_toList] at hf
  simp only [times, Scope.times, List.forall_mem_cons, List.forall_mem_append, List.mem_flatMap,
    Option.mem_toList] at hg
  obtain ⟨hsubject, ⟨⟨hparent, hcapabilities⟩, hscope⟩, hkey, -⟩ := hf
  obtain ⟨hwindow, hbefore, hafter, -⟩ := hg
  have hcaps : Option.map (List.map (Capability.map f)) a.capabilities =
      Option.map (List.map (Capability.map f')) a.capabilities := by
    cases hcs : a.capabilities with
    | none => rfl
    | some cs =>
        rw [hcs] at hcapabilities
        refine congrArg some (List.map_congr_left fun c hc ↦ ?_)
        rw [Capability.map, Capability.map, hcapabilities c.ns ⟨c, hc, by simp⟩,
          hcapabilities c.name ⟨c, hc, by simp⟩]
  have hwindows : ∀ w ∈ a.scope.timeWindow, w.map g = w.map g' := fun w hw ↦ by
    rw [TimeWindow.map, TimeWindow.map, hwindow w.start ⟨w, hw, by simp⟩,
      hwindow w.stop ⟨w, hw, by simp⟩]
  rw [map, map, hsubject, Option.map_congr hparent, hcaps, Scope.map_congr hscope hwindows,
    Validity.map, Validity.map, hbefore, hafter, Proof.map, Proof.map, hkey]

end Map

section Printed

variable {conv : Strconv} {f : GoString → GoString} {g : Time → Time} {a b : Authority}

theorem Scope.encodable_eq_ok_iff {s : Scope} {u : Unit} : s.encodable = .ok u ↔
    (∀ t ∈ s.times, Json.checkTime t = .ok ()) ∧
      ∀ m ∈ s.monetary, Json.checkFloat m.limit = .ok () := by
  rw [encodable, times]
  cases s.timeWindow <;> cases s.monetary <;>
    simp [Json.then_eq_ok_iff, pure, Except.pure, and_assoc]

theorem encodable_eq_ok_iff {u : Unit} : a.encodable = .ok u ↔
    (∀ t ∈ a.times, Json.checkTime t = .ok ()) ∧
      ∀ m ∈ a.scope.monetary, Json.checkFloat m.limit = .ok () := by
  rw [encodable, times, Json.then_eq_ok_iff, Json.then_eq_ok_iff, Scope.encodable_eq_ok_iff,
    List.forall_mem_append]
  simp [and_assoc, and_left_comm, and_comm]

structure Scope.Encodable (s : Scope) : Prop where
  year : ∀ w ∈ s.timeWindow, ∀ t ∈ [w.start, w.stop], 0 ≤ Rfc3339.year t
  finite : ∀ m ∈ s.monetary, m.limit.magnitude < Binary64.infinity

theorem scope_encodable (ha : a.encodable = .ok ()) : a.scope.Encodable := by
  obtain ⟨htimes, hmonetary⟩ := encodable_eq_ok_iff.mp ha
  constructor
  · intro w hw t ht
    refine Json.year_of_checkTime (htimes t (List.mem_append_left _ ?_))
    exact List.mem_flatMap.mpr ⟨w, Option.mem_toList.mpr hw, ht⟩
  · exact fun m hm ↦ Json.finite_of_checkFloat (hmonetary m hm)

theorem validity_year (ha : a.encodable = .ok ()) :
    ∀ t ∈ [a.validity.notBefore, a.validity.notAfter], 0 ≤ Rfc3339.year t := fun t ht ↦
  Json.year_of_checkTime ((encodable_eq_ok_iff.mp ha).1 t (List.mem_append_right _ ht))

theorem document_map (hf : ∀ s, Utf8.runes (f s) = Utf8.runes s)
    (hg : ∀ t, Rfc3339.marshal (g t) = Rfc3339.marshal t ∧ Rfc3339.text (g t) = Rfc3339.text t) :
    (a.map f g id).document conv = a.document conv := by
  have hstring : ∀ s, (Json.string (f s) : Json Literal) = .string s := fun s ↦
    congrArg Json.str (Utf8.coerce_eq_iff.mpr (hf s))
  have htime : ∀ t, (Json.time (g t) : Json Literal) = .time t := fun t ↦
    congrArg Json.str (hg t).2
  have hstrings : ∀ ss : List GoString, (Json.strings? (ss.map f) : Option (Json Literal)) =
      Json.strings? ss := fun ss ↦ by simp [Json.strings?, Function.comp_def, hstring]
  have hcapability : ∀ c : Capability, (c.map f).json = c.json := fun c ↦ by
    simp only [Capability.json, Capability.map, hstring]
  have hcapabilities : capabilitiesJSON (Option.map (List.map (Capability.map f)) a.capabilities) =
      capabilitiesJSON a.capabilities := by
    cases a.capabilities with
    | none => rfl
    | some cs => simp [capabilitiesJSON, Function.comp_def, hcapability]
  have hscope : (a.scope.map f g id).json conv = a.scope.json conv := by
    simp [Scope.json, Scope.map, TimeWindow.json, TimeWindow.map, Quantity.json, Quantity.map,
      Monetary.json, Monetary.map, Function.comp_def, hstring, hstrings, htime]
    rfl
  have hjson : (a.map f g id).json conv = a.json conv := by
    simp [json, map, hcapabilities, hscope, Validity.json, Validity.map, Proof.json, Proof.map,
      Function.comp_def, hstring, htime]
  have hcheck : (a.map f g id).encodable = a.encodable := by
    have hcheckTime := fun t ↦ Json.checkTime_congr (hg t).1
    simp only [encodable, Scope.encodable, map, Scope.map, Validity.map, hcheckTime]
    cases a.scope.timeWindow <;> cases a.scope.monetary <;>
      simp [TimeWindow.map, Monetary.map, hcheckTime]
  simp only [document, hjson, hcheck]

theorem Capability.map_eq_of_same {c c' : Capability} (h : Same conv c.json c'.json) :
    c.map Utf8.coerce = c'.map Utf8.coerce := by
  have hfields := h.struct rfl (by simp)
  simp only [List.forall₂_cons, List.Forall₂.nil, Option.rel_some_some, and_true] at hfields
  obtain ⟨hns, hname⟩ := hfields
  rw [Capability.map, Capability.map, hns.string, hname.string]

theorem capabilities_eq_of_same {cs cs' : NilSlice Capability}
    (h : Same conv (capabilitiesJSON cs) (capabilitiesJSON cs')) :
    Option.map (List.map (Capability.map Utf8.coerce)) cs =
      Option.map (List.map (Capability.map Utf8.coerce)) cs' := by
  cases cs with
  | none =>
      cases cs' with
      | none => rfl
      | some cs' => nomatch h.tree
  | some cs =>
      cases cs' with
      | none => nomatch h.tree
      | some cs' =>
          refine congrArg some (h.list ?_)
          exact fun c _ c' _ hc ↦ Capability.map_eq_of_same hc

theorem TimeWindow.map_eq_of_same {w w' : TimeWindow} (h : Same conv w.json w'.json)
    (hw : ∀ t ∈ [w.start, w.stop], 0 ≤ Rfc3339.year t)
    (hw' : ∀ t ∈ [w'.start, w'.stop], 0 ≤ Rfc3339.year t) :
    w.map Rfc3339.printed = w'.map Rfc3339.printed := by
  have hfields := h.struct (by simp) (by simp)
  simp only [List.forall₂_cons, List.Forall₂.nil, Option.rel_some_some, and_true] at hfields
  simp only [List.forall_mem_cons] at hw hw'
  obtain ⟨hstart, hstop⟩ := hfields
  rw [TimeWindow.map, TimeWindow.map, hstart.time hw.1 hw'.1, hstop.time hw.2.1 hw'.2.1]

theorem Validity.map_eq_of_same {v v' : Validity} (h : Same conv v.json v'.json)
    (hv : ∀ t ∈ [v.notBefore, v.notAfter], 0 ≤ Rfc3339.year t)
    (hv' : ∀ t ∈ [v'.notBefore, v'.notAfter], 0 ≤ Rfc3339.year t) :
    v.map Rfc3339.printed = v'.map Rfc3339.printed := by
  have hfields := h.struct (by simp) (by simp)
  simp only [List.forall₂_cons, List.Forall₂.nil, Option.rel_some_some, and_true] at hfields
  simp only [List.forall_mem_cons] at hv hv'
  obtain ⟨hbefore, hafter⟩ := hfields
  rw [Validity.map, Validity.map, hbefore.time hv.1 hv'.1, hafter.time hv.2.1 hv'.2.1]

section Correct

variable (hconv : conv.Correct)

include hconv

theorem Quantity.map_eq_of_same {q q' : Quantity} (h : Same conv q.json q'.json) :
    q.map Utf8.coerce = q'.map Utf8.coerce := by
  have hfields := h.struct rfl (by simp)
  simp only [List.forall₂_cons, List.Forall₂.nil, Option.rel_some_some, and_true] at hfields
  obtain ⟨hunit, hlimit⟩ := hfields
  rw [Quantity.map, Quantity.map, hunit.string, hlimit.int hconv]

theorem Monetary.map_eq_of_same {m m' : Monetary} (h : Same conv (m.json conv) (m'.json conv))
    (hm : m.limit.magnitude < Binary64.infinity) (hm' : m'.limit.magnitude < Binary64.infinity) :
    m.map Utf8.coerce unsignedZero = m'.map Utf8.coerce unsignedZero := by
  have hfields := h.struct rfl (by simp)
  simp only [List.forall₂_cons, List.Forall₂.nil, Option.rel_some_some, and_true] at hfields
  obtain ⟨hcurrency, hlimit⟩ := hfields
  rw [Monetary.map, Monetary.map, hcurrency.string, hlimit.float hconv hm hm']

theorem DelegationConstraints.eq_of_same {d d' : DelegationConstraints}
    (h : Same conv d.json d'.json) : d = d' := by
  have hfields := h.struct rfl (by simp)
  simp only [List.forall₂_cons, List.Forall₂.nil, and_true] at hfields
  have hdepth := Same.option (g := id) hfields fun i _ i' _ hi ↦ hi.int hconv
  rw [Option.map_id, id, id] at hdepth
  cases d
  cases d'
  exact congrArg _ hdepth

theorem Scope.map_eq_of_same {s s' : Scope} (hs : s.Encodable) (hs' : s'.Encodable)
    (h : Same conv (s.json conv) (s'.json conv)) :
    s.map Utf8.coerce Rfc3339.printed unsignedZero =
      s'.map Utf8.coerce Rfc3339.printed unsignedZero := by
  have hfields := h.struct rfl (by simp)
  simp only [List.forall₂_cons, List.Forall₂.nil, and_true] at hfields
  obtain ⟨hres, hsub, hact, horg, hgeo, hchan, hwindow, hquantity, hmonetary⟩ := hfields
  have hw : s.timeWindow.map (TimeWindow.map Rfc3339.printed) =
      s'.timeWindow.map (TimeWindow.map Rfc3339.printed) :=
    Same.option hwindow fun w hw w' hw' hsame ↦
      TimeWindow.map_eq_of_same hsame (hs.year w hw) (hs'.year w' hw')
  have hq : s.quantity.map (Quantity.map Utf8.coerce) =
      s'.quantity.map (Quantity.map Utf8.coerce) :=
    Same.option hquantity fun q _ q' _ hsame ↦ Quantity.map_eq_of_same hconv hsame
  have hm : s.monetary.map (Monetary.map Utf8.coerce unsignedZero) =
      s'.monetary.map (Monetary.map Utf8.coerce unsignedZero) :=
    Same.option hmonetary fun m hm m' hm' hsame ↦
      Monetary.map_eq_of_same hconv hsame (hs.finite m hm) (hs'.finite m' hm')
  rw [Scope.map, Scope.map, Same.strings? hres, Same.strings? hsub, Same.strings? hact,
    Same.strings? horg, Same.strings? hgeo, Same.strings? hchan, hw, hq, hm]

theorem Proof.map_eq_of_same {p p' : Proof} (h : Same conv p.json p'.json)
    (hsig : p.signature = p'.signature) : p.map Utf8.coerce = p'.map Utf8.coerce := by
  have hfields := h.struct rfl (by simp)
  simp only [List.forall₂_cons, List.Forall₂.nil, Option.rel_some_some, and_true] at hfields
  obtain ⟨halgorithm, hkey, -⟩ := hfields
  rw [Proof.map, Proof.map, hkey.string, halgorithm.int hconv, hsig]

/-- Documents with the same canonical form come from authorities that are printed
alike. -/
theorem map_eq_of_same (ha : a.encodable = .ok ()) (hb : b.encodable = .ok ())
    (hsig : a.proof.signature = b.proof.signature) (h : Same conv (a.json conv) (b.json conv)) :
    a.map Utf8.coerce Rfc3339.printed unsignedZero =
      b.map Utf8.coerce Rfc3339.printed unsignedZero := by
  have hfields := h.struct (by simp) (by simp)
  simp only [List.forall₂_cons, List.Forall₂.nil, Option.rel_some_some, and_true] at hfields
  obtain ⟨hsubject, hparent, hcapabilities, hscope, hvalidity, hconstraints, hstatus, hproof⟩ :=
    hfields
  have hparents : a.parent.map Utf8.coerce = b.parent.map Utf8.coerce :=
    Same.option hparent fun s _ s' _ hsame ↦ hsame.string
  rw [map, map, hsubject.string, hparents, capabilities_eq_of_same hcapabilities,
    Scope.map_eq_of_same hconv (scope_encodable ha) (scope_encodable hb) hscope,
    Validity.map_eq_of_same hvalidity (validity_year ha) (validity_year hb),
    DelegationConstraints.eq_of_same hconv hconstraints, hstatus.int hconv,
    Proof.map_eq_of_same hconv hproof hsig]

end Correct

end Printed

/-! ## Identity -/

section Identity

variable {codec : Codec Authority} {conv : Strconv} {a b : Authority} {bytes : GoString}

theorem document_eq_ok_iff {doc : Document} : a.document conv = .ok doc ↔
    a.encodable = .ok () ∧ doc.json = a.json conv := by
  rw [document, Json.then_eq_ok_iff]
  refine and_congr_right fun _ ↦ ⟨fun h ↦ (congrArg Document.json (Except.ok.inj h)).symm, ?_⟩
  intro h
  cases doc
  subst h
  rfl

theorem strings_hashed (a : Authority) : a.hashed.strings = a.strings := by
  rw [hashed, strings_map, List.map_id]
  rfl

theorem times_hashed (a : Authority) : a.hashed.times = a.times := by
  rw [hashed, times_map, List.map_id]
  rfl

/-- Nothing is lost of an authority with these strings and times. -/
theorem printed_eq_hashed (hstrings : ∀ s ∈ a.strings, '\ufffd' ∉ Utf8.runes s)
    (htimes : ∀ t ∈ a.times, t.offset = 0) : a.printed = a.hashed := by
  apply map_congr
  · exact fun s hs ↦ Utf8.coerce_of_valid (Utf8.valid_of_not_mem (hstrings s hs))
  · exact fun t ht ↦ Rfc3339.printed_of_offset (htimes t ht)

theorem printed_eq_of_canonicalBytes (hconv : conv.Correct)
    (hcodec : codec.Encodes (document conv)) (ha : canonicalBytes codec conv a = .ok bytes)
    (hb : canonicalBytes codec conv b = .ok bytes) : a.printed = b.printed := by
  obtain ⟨doc, hdoc, hbytes⟩ := hcodec.jsonCanonicalize_eq_ok_iff.mp ha
  obtain ⟨doc', hdoc', hbytes'⟩ := hcodec.jsonCanonicalize_eq_ok_iff.mp hb
  have hsame := same_of_appendJCS hbytes hbytes'
  rw [document_eq_ok_iff] at hdoc hdoc'
  rw [hdoc.2, hdoc'.2] at hsame
  exact map_eq_of_same hconv hdoc.1 hdoc'.1 rfl hsame

/-- Strings with other invalid bytes and times with another offset in the same
minute leave the canonical bytes as they are. -/
theorem canonicalBytes_map (hcodec : codec.Encodes (document conv)) {f : GoString → GoString}
    {g : Time → Time} (hf : ∀ s, Utf8.runes (f s) = Utf8.runes s)
    (hg : ∀ t, Rfc3339.marshal (g t) = Rfc3339.marshal t ∧ Rfc3339.text (g t) = Rfc3339.text t)
    (ha : canonicalBytes codec conv a = .ok bytes) :
    canonicalBytes codec conv (a.unsigned.map f g id) = .ok bytes := by
  have hdoc : (a.unsigned.map f g id).unsigned.document conv = a.unsigned.document conv :=
    document_map (a := a.unsigned) hf hg
  rw [canonicalBytes, hcodec.jsonCanonicalize_eq_ok_iff] at ha ⊢
  rwa [hdoc]

/-- An authority is the only one with its canonical bytes exactly if it has no
U+FFFD in a string, as such or for an invalid byte, and no time outside UTC. -/
theorem canonicalBytes_identity_iff (hconv : conv.Correct)
    (hcodec : codec.Encodes (document conv)) (ha : canonicalBytes codec conv a = .ok bytes) :
    (∀ b, canonicalBytes codec conv b = .ok bytes → b.hashed = a.hashed) ↔
      (∀ s ∈ a.strings, '\ufffd' ∉ Utf8.runes s) ∧ ∀ t ∈ a.times, t.offset = 0 := by
  constructor
  · intro hall
    -- respell every string and move every time that can be changed
    choose f hf hfixed using Utf8.exists_runes_eq
    choose g hg hgtext hgfixed using Rfc3339.exists_text_eq
    have heq := hall _ (canonicalBytes_map hcodec hf (fun t ↦ ⟨hg t, hgtext t⟩) ha)
    have hstrings : a.strings.map f = a.strings.map id := by
      have hlist := congrArg strings heq
      rwa [strings_hashed, strings_hashed, strings_map, ← List.map_id a.strings] at hlist
    have htimes : a.times.map g = a.times.map id := by
      have hlist := congrArg times heq
      rwa [times_hashed, times_hashed, times_map, ← List.map_id a.times] at hlist
    rw [List.map_inj_left] at hstrings htimes
    exact ⟨fun s hs ↦ hfixed s (hstrings s hs), fun t ht ↦ hgfixed t (htimes t ht)⟩
  · rintro ⟨hstrings, htimes⟩ b hb
    have hprinted := printed_eq_of_canonicalBytes hconv hcodec hb ha
    rw [printed_eq_hashed hstrings htimes] at hprinted
    rw [← hprinted, eq_comm]
    -- what is printed of the other one has the strings and times of this one
    have hstrings' : b.strings.map Utf8.coerce = a.strings := by
      rw [← strings_hashed a, ← hprinted, printed, strings_map]
      rfl
    have htimes' : b.times.map Rfc3339.printed = a.times := by
      rw [← times_hashed a, ← hprinted, printed, times_map]
      rfl
    rw [← hstrings', List.forall_mem_map] at hstrings
    rw [← htimes', List.forall_mem_map] at htimes
    apply printed_eq_hashed
    · intro s hs
      have hnot := hstrings s hs
      rwa [Utf8.runes_coerce] at hnot
    · exact fun t ht ↦ Rfc3339.offset_of_printed (htimes t ht)

end Identity

/-! ## What has canonical bytes -/

section Encodable

variable {conv : Strconv} {codec : Codec Authority} {a : Authority}

def integers (a : Authority) : List ℤ :=
  a.scope.quantity.toList.map Quantity.limit ++
    (a.delegationConstraints.maxDepth.toList ++ [a.status, a.proof.algorithm])

/-- Times that can be written, integers that are doubles, and a finite amount; its shortest
text, if it has neither a point nor an exponent, is the amount itself. -/
structure Encodable (conv : Strconv) (a : Authority) : Prop where
  times : ∀ t ∈ a.times, ∃ s, Rfc3339.marshal t = .ok s
  integers : ∀ i ∈ a.integers, ∃ m < Binary64.infinity, Binary64.value m = i.natAbs
  amount : ∀ m ∈ a.scope.monetary, Json.checkFloat m.limit = .ok () ∧
    Accepts conv (floatLiteral conv m.limit)

theorem mem_atoms_json {l : Literal} : l ∈ (a.json conv).atoms ↔
    (∃ i ∈ a.integers, l = .ofInt i) ∨ ∃ m ∈ a.scope.monetary, l = floatLiteral conv m.limit := by
  have hstr : ∀ s, (Json.str s : Json Literal).atoms = [] := fun _ ↦ rfl
  have hnull : (Json.null : Json Literal).atoms = [] := rfl
  have hstrings : ∀ ss, ¬ ∃ v, Json.strings? ss = some v ∧ l ∈ v.atoms := by
    simp [Json.strings?, Json.string, hstr]
  have hbytes : ∀ b, ¬ ∃ v, Json.bytes? b = some v ∧ l ∈ v.atoms := by
    simp [Json.bytes?, Json.string, hstr]
  have hcaps : l ∉ (capabilitiesJSON a.capabilities).atoms := by
    cases a.capabilities <;>
      simp [capabilitiesJSON, hnull, hstr, Capability.json, Json.string]
  simp [json, integers, Scope.json, Validity.json, DelegationConstraints.json, Proof.json, Json.int,
    Json.string, Json.time, hstr, Quantity.json, Monetary.json, TimeWindow.json, hcaps, hstrings,
    hbytes]
  grind

theorem exists_canonicalBytes_iff (hconv : conv.Correct) (hcodec : codec.Encodes (document conv)) :
    (∃ bytes, canonicalBytes codec conv a = .ok bytes) ↔ a.Encodable conv := by
  constructor
  · rintro ⟨bytes, hbytes⟩
    obtain ⟨doc, hdoc, hbytes⟩ := hcodec.jsonCanonicalize_eq_ok_iff.mp hbytes
    obtain ⟨hcheck, hjson⟩ := document_eq_ok_iff.mp hdoc
    obtain ⟨htimes, hfloat⟩ := encodable_eq_ok_iff.mp hcheck
    have haccepts : ∀ l ∈ (a.unsigned.json conv).atoms, Accepts conv l := by
      rw [← hjson]
      exact fun l hl ↦ number?_of_document hbytes hl
    refine ⟨fun t ht ↦ Json.checkTime_eq_ok_iff.mp (htimes t ht), fun i hi ↦ ?_, fun m hm ↦ ?_⟩
    · exact (accepts_ofInt_iff hconv).mp (haccepts _ (mem_atoms_json.mpr (Or.inl ⟨i, hi, rfl⟩)))
    · exact ⟨hfloat m hm, haccepts _ (mem_atoms_json.mpr (Or.inr ⟨m, hm, rfl⟩))⟩
  · intro h
    have hcheck : a.unsigned.encodable = .ok () := encodable_eq_ok_iff.mpr
      ⟨fun t ht ↦ Json.checkTime_eq_ok_iff.mpr (h.times t ht), fun m hm ↦ (h.amount m hm).1⟩
    obtain ⟨doc, hdoc⟩ : ∃ doc, a.unsigned.document conv = .ok doc :=
      ⟨⟨_, wellFormed_json conv _, (depth_json conv _).trans (by norm_num)⟩,
        document_eq_ok_iff.mpr ⟨hcheck, rfl⟩⟩
    have haccepts : ∀ l ∈ doc.json.atoms, Accepts conv l := by
      rw [(document_eq_ok_iff.mp hdoc).2]
      intro l hl
      rcases mem_atoms_json.mp hl with ⟨i, hi, rfl⟩ | ⟨m, hm, rfl⟩
      · exact (accepts_ofInt_iff hconv).mpr (h.integers i hi)
      · exact (h.amount m hm).2
    obtain ⟨bytes, hbytes⟩ := exists_appendJCS haccepts
    exact ⟨bytes, hcodec.jsonCanonicalize_eq_ok_iff.mpr ⟨doc, hdoc, hbytes⟩⟩

end Encodable

section Sample

variable (subject : GoString) (notBefore : Time)

def sampleAuthority : Authority :=
  { blank with
    subject
    validity := ⟨notBefore, ⟨0, 0⟩⟩
    status := statusActive
    proof := ⟨1, [], []⟩ }

variable {subject notBefore} {conv : Strconv} {codec : Codec Authority}

theorem checkTime_zero : Json.checkTime ⟨0, 0⟩ = .ok () :=
  Json.checkTime_eq_ok_iff.mpr ⟨_, Rfc3339.marshal_eq_ok_iff.mpr ⟨by decide, by decide, rfl⟩⟩

theorem encodable_sampleAuthority (hconv : conv.Correct)
    (htime : Json.checkTime notBefore = .ok ()) :
    (sampleAuthority subject notBefore).Encodable conv where
  times := List.forall_mem_cons.mpr ⟨Json.checkTime_eq_ok_iff.mp htime,
    List.forall_mem_singleton.mpr (Json.checkTime_eq_ok_iff.mp checkTime_zero)⟩
  integers := by
    have hone := (accepts_ofInt_iff hconv).mp (accepts_ofInt hconv (i := 1) (by decide))
    exact List.forall_mem_cons.mpr ⟨hone, List.forall_mem_singleton.mpr hone⟩
  amount := by rintro m ⟨⟩

theorem exists_canonicalBytes (hconv : conv.Correct) (hcodec : codec.Encodes (document conv))
    (htime : Json.checkTime notBefore = .ok ()) :
    ∃ bytes, canonicalBytes codec conv (sampleAuthority subject notBefore) = .ok bytes :=
  (exists_canonicalBytes_iff hconv hcodec).mpr (encodable_sampleAuthority hconv htime)

theorem sampleAuthority_map {f : GoString → GoString} {g : Time → Time} (hf : f [] = [])
    (hg : g ⟨0, 0⟩ = ⟨0, 0⟩) : (sampleAuthority subject notBefore).unsigned.map f g id =
      sampleAuthority (f subject) (g notBefore) := by
  simp [sampleAuthority, blank, blankScope, unsigned, map, Scope.map, Validity.map, Proof.map, hf,
    hg]

/-- The authority of the zero time is the only one with its bytes. -/
theorem canonicalBytes_identity_sample :
    ∃ bytes, canonicalBytes (encodingCodec (document .reference)) .reference
        (sampleAuthority [97] ⟨0, 0⟩) = .ok bytes ∧
      ((∀ b, canonicalBytes (encodingCodec (document .reference)) .reference b = .ok bytes →
          b.hashed = (sampleAuthority [97] ⟨0, 0⟩).hashed) ↔
        (∀ s ∈ (sampleAuthority [97] ⟨0, 0⟩).strings, '\ufffd' ∉ Utf8.runes s) ∧
          ∀ t ∈ (sampleAuthority [97] ⟨0, 0⟩).times, t.offset = 0) := by
  obtain ⟨bytes, hbytes⟩ := exists_canonicalBytes Strconv.reference_correct
    (encodingCodec_encodes _) checkTime_zero
  exact ⟨bytes, hbytes,
    canonicalBytes_identity_iff Strconv.reference_correct (encodingCodec_encodes _) hbytes⟩

/-- The byte `0xff` and the text of U+FFFD as subjects have one identity, and so
have two validities that begin a second apart. -/
theorem canonicalBytes_not_injective :
    ∃ bytes,
      canonicalBytes (encodingCodec (document .reference)) .reference
          (sampleAuthority [0xff] ⟨1000000000, 3600⟩) = .ok bytes ∧
        canonicalBytes (encodingCodec (document .reference)) .reference
          (sampleAuthority [0xef, 0xbf, 0xbd] ⟨1000000000, 3600⟩) = .ok bytes ∧
        canonicalBytes (encodingCodec (document .reference)) .reference
          (sampleAuthority [0xff] ⟨0, 3601⟩) = .ok bytes ∧
      (sampleAuthority [0xff] ⟨1000000000, 3600⟩).hashed ≠
          (sampleAuthority [0xef, 0xbf, 0xbd] ⟨1000000000, 3600⟩).hashed ∧
        (sampleAuthority [0xff] ⟨1000000000, 3600⟩).hashed ≠
          (sampleAuthority [0xff] ⟨0, 3601⟩).hashed := by
  have hcodec := encodingCodec_encodes (document .reference)
  have hcheck : Json.checkTime ⟨1000000000, 3600⟩ = .ok () :=
    Json.checkTime_eq_ok_iff.mpr ⟨_, Rfc3339.marshal_eq_ok_iff.mpr ⟨by decide, by decide, rfl⟩⟩
  obtain ⟨bytes, hbytes⟩ := exists_canonicalBytes Strconv.reference_correct hcodec hcheck
  have hspell : ∀ s, Utf8.runes (if s = [0xff] then [0xef, 0xbf, 0xbd] else s) =
      Utf8.runes s := by
    intro s
    split_ifs with hs
    · rw [hs]
      decide
    · rfl
  have hmove : ∀ t, Rfc3339.marshal (if t = ⟨1000000000, 3600⟩ then ⟨0, 3601⟩ else t) =
      Rfc3339.marshal t ∧ Rfc3339.text (if t = ⟨1000000000, 3600⟩ then ⟨0, 3601⟩ else t) =
        Rfc3339.text t := by
    intro t
    split_ifs with ht
    · have hzone : Rfc3339.SameZone 3601 3600 := ⟨by decide, by decide⟩
      rw [ht]
      exact ⟨Rfc3339.marshal_congr rfl hzone, Rfc3339.text_congr rfl hzone⟩
    · exact ⟨rfl, rfl⟩
  refine ⟨bytes, hbytes, ?_, ?_, by decide, by decide⟩
  · have hmap := canonicalBytes_map hcodec hspell (g := id) (fun t ↦ ⟨rfl, rfl⟩) hbytes
    rwa [sampleAuthority_map rfl rfl] at hmap
  · have hmap := canonicalBytes_map hcodec (f := id) (fun s ↦ rfl) hmove hbytes
    rwa [sampleAuthority_map rfl rfl] at hmap

end Sample

end Trust.Authority
