import Mathlib
import Trust.Attestation.Attestation
import Trust.Attestation.ClaimDocument

/-!
# The canonical bytes of an attestation

The JSON document of an attestation with its claim and its evidence.
-/

namespace Trust.Attestation

open Lib Canonical
open Authority (Capability)

def capabilityDocument (c : Capability) : Document :=
  ⟨c.json, c.wellFormed_json, c.depth_json.trans (by norm_num)⟩

theorem capability_rereads : Rereads (fun c ↦ .ok (capabilityDocument c)) id fun _ ↦ True where
  keeps _ _ := rfl
  of_shape _ _ _ _ _ _ := trivial

variable {V : Type} (conv : Strconv) (value : V → Except String Document)

def evidenceDocuments : NilSlice (Evidence V) → Except String (NilSlice Document)
  | none => .ok none
  | some evs => (evs.mapM (Evidence.document value)).map some

/-- A nil slice is `null`. -/
def evidenceValue : NilSlice Document → Json Literal
  | none => .null
  | some ds => .arr (ds.map Document.json)

def attestationJSON (claim : Document) (evidence : NilSlice Document) (att : Attestation V) :
    Json Literal :=
  .struct [("issuer", some (.string att.issuer)),
    ("signingKeyId", some (.string att.signingKeyID)),
    ("signingKeyVersion", some (.int att.signingKeyVersion.toNat)),
    ("authorityRef", some (.string att.authorityRef)),
    ("capability", some att.capability.json), ("claim", some claim.json),
    ("evidence", some (evidenceValue evidence)), ("issuedAt", some (.time att.issuedAt)),
    ("validity", some att.validity.json), ("status", some (.int att.status)),
    ("algorithm", some (.int att.algorithm)), ("signature", Json.bytes? att.signature)]

theorem wellFormed_attestationJSON (claim : Document) (evidence : NilSlice Document)
    (att : Attestation V) : (attestationJSON claim evidence att).wellFormed = true := by
  have hevidence : (evidenceValue evidence).wellFormed = true := by
    cases evidence with
    | none => rfl
    | some ds => simp [evidenceValue, Document.wellFormed]
  have hvalidity : att.validity.json.wellFormed = true :=
    Json.wellFormed_struct (by simp) (by simp)
  refine Json.wellFormed_struct (by simp) ?_
  simp [att.capability.wellFormed_json, claim.wellFormed, hevidence, hvalidity]

def document (att : Attestation V) : Except String Document := do
  let claim ← att.claim.document conv value
  let evidence ← evidenceDocuments value att.evidence
  Json.checkTime att.issuedAt
  Json.checkTime att.validity.notBefore
  Json.checkTime att.validity.notAfter
  Document.ofJSON (attestationJSON claim evidence att)
    (wellFormed_attestationJSON claim evidence att)

variable {conv value}

theorem document_eq_ok_iff {att : Attestation V} {doc : Document} :
    document conv value att = .ok doc ↔ ∃ claim evidence,
      att.claim.document conv value = .ok claim ∧
      evidenceDocuments value att.evidence = .ok evidence ∧
      (∀ t ∈ [att.issuedAt, att.validity.notBefore, att.validity.notAfter],
        Json.checkTime t = .ok ()) ∧ doc.json = attestationJSON claim evidence att := by
  rw [document]
  cases att.claim.document conv value with
  | error msg => simp [bind, Except.bind]
  | ok claim =>
      cases evidenceDocuments value att.evidence with
      | error msg => simp [bind, Except.bind]
      | ok evidence =>
          simp only [Except.ok.injEq, exists_and_left, exists_eq_left', List.forall_mem_cons]
          change (Json.checkTime att.issuedAt >>= fun _ ↦ _) = .ok doc ↔ _
          rw [Json.then_eq_ok_iff, Json.then_eq_ok_iff, Json.then_eq_ok_iff,
            Document.ofJSON_eq_ok_iff]
          simp [and_assoc]

/-- The bytes whose digest is the identity of an attestation. -/
def canonicalBytes (codec : Codec (Attestation V)) (conv : Strconv) (att : Attestation V) :
    Outcome Canonical.Err GoString := jsonCanonicalize codec conv { att with signature := [] }

section Reads

theorem keepsNumbers_capability (c : Capability) :
    KeepsNumbers (fun c ↦ .ok (capabilityDocument c)) c := by
  rintro d hd l hl
  obtain rfl := Except.ok.inj hd
  have hatoms : (capabilityDocument c).json.atoms = [] := rfl
  rw [hatoms] at hl
  exact absurd hl List.not_mem_nil

theorem same_capability {c c' : Capability}
    (h : ReadsAs conv (fun c ↦ .ok (capabilityDocument c)) (fun _ ↦ True) c c') :
    Same conv c.json c'.json := by
  obtain ⟨d, d', hd, hd', hsame⟩ := h
  have hsame := hsame.mpr ⟨keepsNumbers_capability c, trivial⟩
  rwa [← Except.ok.inj hd, ← Except.ok.inj hd'] at hsame

/-- The evidence that is read has the canonical form of the evidence that was written
exactly if each of it has, and if it is not an empty slice, which comes back as nil. -/
theorem evidenceDocuments_of_reads {Keeps : Evidence V → Prop} {evs : NilSlice (Evidence V)}
    {evs' : List (Evidence V)}
    (h : List.Forall₂ (ReadsAs conv (Evidence.document value) Keeps) evs.elems evs') :
    ∃ ev ev', evidenceDocuments value evs = .ok ev ∧
      evidenceDocuments value (if evs' = [] then none else some evs') = .ok ev' ∧
      (Same conv (evidenceValue ev) (evidenceValue ev') ↔
        evs ≠ some [] ∧ ∀ e ∈ evs.elems, KeepsNumbers (Evidence.document value) e ∧ Keeps e) := by
  cases evs with
  | none =>
      cases h
      refine ⟨none, none, rfl, rfl, iff_of_true (Same.refl nofun) ⟨nofun, nofun⟩⟩
  | some evs =>
      cases evs with
      | nil =>
          cases h
          refine ⟨some [], none, rfl, rfl, iff_of_false (fun hsame ↦ ?_) fun h ↦ h.1 rfl⟩
          nomatch hsame.tree
      | cons e es =>
          obtain ⟨ds, ds', hds, hds', hall⟩ := mapM_of_reads h
          have harr : Same conv (evidenceValue (some ds)) (evidenceValue (some ds')) ↔
              List.Forall₂ (fun d d' : Document ↦ Same conv d.json d'.json) ds ds' := by
            rw [← List.forall₂_map_right_iff (f := Document.json), ← List.forall₂_map_left_iff]
            exact ⟨Same.arr, Same.of_arr⟩
          have hne : evs' ≠ [] := by
            rintro rfl
            cases h
          refine ⟨some ds, some ds', ?_, ?_, ?_⟩
          · exact congrArg (Except.map some) hds
          · rw [if_neg hne]
            exact congrArg (Except.map some) hds'
          · rw [harr, hall]
            exact (and_iff_right nofun).symm

end Reads

end Trust.Attestation
