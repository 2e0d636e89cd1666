import Mathlib
import Trust.Attestation.Claim
import Trust.Authority.Document

/-!
# The JSON documents of claims and of evidence

What `encoding/json` makes of a claim and of evidence.  Only for the values of type
`any`, the value of a claim and the metadata of evidence, it is a parameter.  A time
is read back with the offset that was printed, so an offset of less than a minute is
lost, and with it the text of the time.
-/

namespace Trust

open Lib Canonical

namespace Lib

theorem Rfc3339.text_reread {t : Time} (h : KeepsZone t) : text (reread t) = text t :=
  text_congr (localNanos_reread t) (sameZone_reread_iff.mpr h)

theorem Json.checkTime_reread {t : Time} (h : Rfc3339.KeepsZone t) :
    Json.checkTime (Rfc3339.reread t) = Json.checkTime t :=
  checkTime_congr (Rfc3339.marshal_congr (Rfc3339.localNanos_reread t)
    (Rfc3339.sameZone_reread_iff.mpr h))

theorem Rfc3339.keepsZone_of_text {t : Time} (ht : Json.checkTime t = .ok ())
    (h : text t = text (reread t)) : KeepsZone t :=
  (text_reread_iff (Json.year_of_checkTime ht)).mp h.symm

end Lib

/-- A nil value is `null`. -/
def valueDocument {V : Type} (value : V → Except String Document) :
    Option V → Except String Document
  | none => .ok ⟨.null, rfl, by decide⟩
  | some v => value v

/-! ## Scopes and validities that are read back -/

namespace Authority

def Scope.reread (s : Scope) : Scope :=
  { s with timeWindow := s.timeWindow.map (TimeWindow.map Rfc3339.reread) }

def Validity.reread (v : Validity) : Validity := v.map Rfc3339.reread

theorem Scope.keepsZone_window {s : Scope} (h : ∀ t ∈ s.times, Rfc3339.KeepsZone t)
    {w : TimeWindow} (hw : s.timeWindow = some w) :
    Rfc3339.KeepsZone w.start ∧ Rfc3339.KeepsZone w.stop := by
  simp only [times, hw, Option.toList_some, List.flatMap_cons, List.flatMap_nil,
    List.append_nil, List.forall_mem_cons] at h
  exact ⟨h.1, h.2.1⟩

theorem Scope.json_reread {conv : Strconv} {s : Scope} (h : ∀ t ∈ s.times, Rfc3339.KeepsZone t) :
    s.reread.json conv = s.json conv := by
  cases hw : s.timeWindow with
  | none => rw [reread, hw, Option.map_none, ← hw]
  | some w =>
      obtain ⟨hstart, hstop⟩ := keepsZone_window h hw
      simp only [json, reread, hw, Option.map_some, TimeWindow.json, TimeWindow.map, Json.time,
        Rfc3339.text_reread hstart, Rfc3339.text_reread hstop]

theorem Scope.encodable_reread {s : Scope} (h : ∀ t ∈ s.times, Rfc3339.KeepsZone t) :
    s.reread.encodable = s.encodable := by
  cases hw : s.timeWindow with
  | none => rw [reread, hw, Option.map_none, ← hw]
  | some w =>
      obtain ⟨hstart, hstop⟩ := keepsZone_window h hw
      simp only [encodable, reread, hw, Option.map_some, TimeWindow.map,
        Json.checkTime_reread hstart, Json.checkTime_reread hstop]

theorem Validity.json_reread {v : Validity}
    (h : ∀ t ∈ [v.notBefore, v.notAfter], Rfc3339.KeepsZone t) : v.reread.json = v.json := by
  simp only [List.forall_mem_cons] at h
  simp only [json, reread, map, Json.time, Rfc3339.text_reread h.1, Rfc3339.text_reread h.2.1]

/-- The shape of a scope is only kept with its times. -/
theorem Scope.keepsZone_of_shape {conv : Strconv} {s : Scope}
    (hs : ∀ t ∈ s.times, Json.checkTime t = .ok ())
    (h : ((s.json conv).map fun _ ↦ ()).tree = ((s.reread.json conv).map fun _ ↦ ()).tree) :
    ∀ t ∈ s.times, Rfc3339.KeepsZone t := by
  have hfields := Json.fields_of_tree_map h (by simp) (by simp)
  simp only [List.forall₂_cons] at hfields
  obtain ⟨-, -, -, -, -, -, hwindow, -⟩ := hfields
  cases hw : s.timeWindow with
  | none =>
      simp [times, hw]
  | some w =>
      simp only [times, hw, Option.toList_some, List.flatMap_cons, List.flatMap_nil,
        List.append_nil, List.forall_mem_cons] at hs ⊢
      simp only [reread, hw, Option.map_some, Option.some.injEq] at hwindow
      have hends := Json.fields_of_tree_map hwindow (by simp) (by simp)
      simp only [List.forall₂_cons, List.Forall₂.nil, Option.map_some, Option.some.injEq,
        and_true] at hends
      exact ⟨Rfc3339.keepsZone_of_text hs.1 (JsonTree.str.inj hends.1),
        Rfc3339.keepsZone_of_text hs.2.1 (JsonTree.str.inj hends.2), by simp⟩

theorem Validity.keepsZone_of_shape {v : Validity}
    (hv : ∀ t ∈ [v.notBefore, v.notAfter], Json.checkTime t = .ok ())
    (h : (v.json.map fun _ ↦ ()).tree = (v.reread.json.map fun _ ↦ ()).tree) :
    ∀ t ∈ [v.notBefore, v.notAfter], Rfc3339.KeepsZone t := by
  have hends := Json.fields_of_tree_map h (by simp) (by simp)
  simp only [List.forall₂_cons, List.Forall₂.nil, Option.map_some, Option.some.injEq,
    and_true] at hends
  simp only [List.forall_mem_cons] at hv ⊢
  exact ⟨Rfc3339.keepsZone_of_text hv.1 (JsonTree.str.inj hends.1),
    Rfc3339.keepsZone_of_text hv.2.1 (JsonTree.str.inj hends.2), by simp⟩

end Authority

/-! ## Claims -/

namespace Claim

variable {V : Type} (conv : Strconv) (value : V → Except String Document)

def ClaimType.json (t : ClaimType) : Json Literal :=
  .struct [("namespace", some (.string t.ns)), ("name", some (.string t.name))]

def Provenance.json (p : Provenance) : Json Literal :=
  .struct [("source", some (.string p.source)), ("method", some (.string p.method)),
    ("timestamp", some (.time p.timestamp))]

def json (value : Json Literal) (c : Claim V) : Json Literal :=
  .struct [("issuer", some (.string c.issuer)), ("subject", some (.string c.subject)),
    ("type", some c.type.json), ("value", some value), ("scope", some (c.scope.json conv)),
    ("validity", some c.validity.json), ("provenance", some c.provenance.json)]

theorem wellFormed_json {v : Json Literal} (hv : v.wellFormed = true) (c : Claim V) :
    (c.json conv v).wellFormed = true := by
  have htype : c.type.json.wellFormed = true := Json.wellFormed_struct (by simp) (by simp)
  have hvalidity : c.validity.json.wellFormed = true := Json.wellFormed_struct (by simp) (by simp)
  have hprovenance : c.provenance.json.wellFormed = true :=
    Json.wellFormed_struct (by simp) (by simp)
  refine Json.wellFormed_struct (by simp) ?_
  simp [hv, htype, hvalidity, hprovenance, Authority.Scope.wellFormed_json]

/-- The document of a claim, with the errors in the order of the fields. -/
def document (c : Claim V) : Except String Document := do
  let v ← valueDocument value c.value
  c.scope.encodable
  Json.checkTime c.validity.notBefore
  Json.checkTime c.validity.notAfter
  Json.checkTime c.provenance.timestamp
  Document.ofJSON (c.json conv v.json) (wellFormed_json conv v.wellFormed c)

def times (c : Claim V) : List Time :=
  c.scope.times ++ [c.validity.notBefore, c.validity.notAfter, c.provenance.timestamp]

def reread (c : Claim V) : Claim V :=
  { c with
    scope := c.scope.reread
    validity := c.validity.reread
    provenance := { c.provenance with timestamp := Rfc3339.reread c.provenance.timestamp } }

variable {conv value}

theorem document_eq_ok_iff {c : Claim V} {d : Document} :
    c.document conv value = .ok d ↔ ∃ v, valueDocument value c.value = .ok v ∧
      (∀ t ∈ c.times, Json.checkTime t = .ok ()) ∧
      (∀ m ∈ c.scope.monetary, Json.checkFloat m.limit = .ok ()) ∧
      d.json = c.json conv v.json := by
  rw [document]
  cases valueDocument value c.value with
  | error msg => simp [bind, Except.bind]
  | ok v =>
      simp only [Except.ok.injEq, exists_eq_left', times, List.forall_mem_append,
        List.forall_mem_cons]
      change (c.scope.encodable >>= fun _ ↦ _) = .ok d ↔ _
      rw [Json.then_eq_ok_iff, Json.then_eq_ok_iff, Json.then_eq_ok_iff, Json.then_eq_ok_iff,
        Document.ofJSON_eq_ok_iff, Authority.Scope.encodable_eq_ok_iff]
      simp [and_assoc, and_left_comm]

/-- A claim is printed as before when it is read again exactly if no offset is lost. -/
theorem rereads : Rereads (document conv value) reread
    fun c : Claim V ↦ ∀ t ∈ c.times, Rfc3339.KeepsZone t where
  keeps c h := by
    simp only [times, List.forall_mem_append, List.forall_mem_cons] at h
    obtain ⟨hscope, hbefore, hafter, htimestamp, -⟩ := h
    have hjson : c.scope.reread.json conv = c.scope.json conv :=
      Authority.Scope.json_reread hscope
    have hencodable := Authority.Scope.encodable_reread hscope
    have hvalidity := Authority.Validity.json_reread (v := c.validity) (by simp [hbefore, hafter])
    have hall : ∀ v, c.reread.json conv v = c.json conv v := by
      intro v
      simp only [json, reread, hjson, hvalidity, Provenance.json, Json.time,
        Rfc3339.text_reread htimestamp]
    simp only [document, hall]
    simp only [reread, Authority.Validity.reread, Authority.Validity.map, hencodable,
      Json.checkTime_reread hbefore, Json.checkTime_reread hafter,
      Json.checkTime_reread htimestamp]
  of_shape c d e hd he hshape := by
    obtain ⟨v, hv, htimes, -, hjson⟩ := document_eq_ok_iff.mp hd
    obtain ⟨v', hv', -, -, hjson'⟩ := document_eq_ok_iff.mp he
    simp only [times, List.forall_mem_append, List.forall_mem_cons] at htimes ⊢
    obtain ⟨hscope, hbefore, hafter, htimestamp, -⟩ := htimes
    rw [hjson, hjson'] at hshape
    have hfields := Json.fields_of_tree_map hshape (by simp) (by simp)
    simp only [List.forall₂_cons, List.Forall₂.nil, Option.map_some, Option.some.injEq,
      and_true] at hfields
    obtain ⟨-, -, -, -, hscope', hvalidity', hprovenance⟩ := hfields
    have horigin := Json.fields_of_tree_map hprovenance (by simp) (by simp)
    simp only [List.forall₂_cons, List.Forall₂.nil, Option.map_some, Option.some.injEq,
      and_true] at horigin
    have hvalidity := Authority.Validity.keepsZone_of_shape (by simp [hbefore, hafter]) hvalidity'
    simp only [List.forall_mem_cons] at hvalidity
    exact ⟨Authority.Scope.keepsZone_of_shape hscope hscope', hvalidity.1, hvalidity.2.1,
      Rfc3339.keepsZone_of_text htimestamp (JsonTree.str.inj horigin.2.2), by simp⟩

end Claim

/-! ## Evidence -/

namespace Evidence

variable {V : Type} (value : V → Except String Document)

def Provenance.json (p : Provenance) : Json Literal :=
  .struct [("source", some (.string p.source)), ("method", some (.string p.method)),
    ("timestamp", some (.time p.timestamp))]

def json (metadata : List (GoString × Document)) (ev : Evidence V) : Json Literal :=
  .struct [("identifier", some (.string ev.identifier)),
    ("contentHash", some (.bytes ev.contentHash)), ("mediaType", some (.string ev.mediaType)),
    ("locator", some (.string ev.locator)), ("provenance", some ev.provenance.json),
    ("metadata", Json.map? (metadata.map fun m ↦ (m.1, m.2.json)))]

theorem wellFormed_json (metadata : List (GoString × Document)) (ev : Evidence V) :
    (ev.json metadata).wellFormed = true := by
  have hprovenance : ev.provenance.json.wellFormed = true :=
    Json.wellFormed_struct (by simp) (by simp)
  have hmetadata :
      (Json.map? (metadata.map fun m ↦ (m.1, m.2.json))).all Json.wellFormed = true := by
    apply Json.wellFormed_map?
    rw [List.forall_mem_map]
    exact fun m _ ↦ m.2.wellFormed
  refine Json.wellFormed_struct (by simp) ?_
  simp [hprovenance, hmetadata]

/-- The entries of a map in the order in which they are marshalled. -/
def sortEntries (entries : List (GoString × V)) : List (GoString × V) :=
  entries.mergeSort fun a b ↦ decide (a.1 ≤ b.1)

def metadataDocuments (entries : List (GoString × V)) :
    Except String (List (GoString × Document)) :=
  (sortEntries entries).mapM fun e ↦ (value e.2).map fun d ↦ (e.1, d)

def document (ev : Evidence V) : Except String Document := do
  Json.checkTime ev.provenance.timestamp
  let metadata ← metadataDocuments value ev.metadata
  Document.ofJSON (ev.json metadata) (wellFormed_json metadata ev)

def reread (ev : Evidence V) : Evidence V :=
  { ev with
    provenance := { ev.provenance with timestamp := Rfc3339.reread ev.provenance.timestamp } }

variable {value}

theorem document_eq_ok_iff {ev : Evidence V} {d : Document} :
    ev.document value = .ok d ↔ Json.checkTime ev.provenance.timestamp = .ok () ∧
      ∃ metadata, metadataDocuments value ev.metadata = .ok metadata ∧
        d.json = ev.json metadata := by
  rw [document, Json.then_eq_ok_iff]
  refine and_congr_right fun _ ↦ ?_
  cases metadataDocuments value ev.metadata with
  | error msg => simp [bind, Except.bind]
  | ok metadata =>
      simp only [Except.ok.injEq, exists_eq_left']
      exact Document.ofJSON_eq_ok_iff

theorem rereads : Rereads (document value) reread
    fun ev : Evidence V ↦ Rfc3339.KeepsZone ev.provenance.timestamp where
  keeps ev h := by
    have hall : ∀ metadata, ev.reread.json metadata = ev.json metadata := by
      intro metadata
      simp only [json, reread, Provenance.json, Json.time, Rfc3339.text_reread h]
    simp only [document, hall]
    simp only [reread, Json.checkTime_reread h]
  of_shape ev d e hd he hshape := by
    obtain ⟨htimestamp, metadata, -, hjson⟩ := document_eq_ok_iff.mp hd
    obtain ⟨-, metadata', -, hjson'⟩ := document_eq_ok_iff.mp he
    rw [hjson, hjson'] at hshape
    have hfields := Json.fields_of_tree_map hshape (by simp) (by simp)
    simp only [List.forall₂_cons, List.Forall₂.nil, Option.map_some, Option.some.injEq,
      and_true] at hfields
    obtain ⟨-, -, -, -, hprovenance, -⟩ := hfields
    have horigin := Json.fields_of_tree_map hprovenance (by simp) (by simp)
    simp only [List.forall₂_cons, List.Forall₂.nil, Option.map_some, Option.some.injEq,
      and_true] at horigin
    exact Rfc3339.keepsZone_of_text htimestamp (JsonTree.str.inj horigin.2.2)

end Evidence

end Trust
