import Mathlib
import Trust.Identity.DidPkh
import Trust.Verification.BinderSound

/-!
# Binding keys through documents

The default binder takes the first method of a document that is named by the key
identifier and carries key material.  The documents of blockchain accounts carry
none.
-/

namespace Trust.Verification

open Lib Signature
open Did (DID Document)

/-- What `bindMethod` reads of a verification method. -/
def readMethod (m : Did.Method) : Method where
  type := m.type
  blockchainAccountId := m.blockchainAccountId
  publicKeyMultibase := m.publicKeyMultibase
  publicKeyJWK := fun k ↦ m.publicKeyJWK.lookup k

/-! ## The default binder -/

def methodMatches (m : Did.Method) (docID keyID : GoString) : Bool :=
  decide (m.id = keyID ∨ m.id = docID ++ [35] ++ keyID)

def hasKeyMaterial (m : Did.Method) : Bool :=
  decide (m.publicKeyMultibase ≠ [] ∨ 0 < m.publicKeyJWK.length)

variable (lib : KeyLibrary)

/-- The loop of `Bind`. -/
def bindFrom (keyID docID : GoString) : List Did.Method → Outcome Err PublicKey
  | [] => .error (.errorf "verification: bind %q: key not found in DID document" [] []
      [.str keyID])
  | m :: ms =>
      if !methodMatches m docID keyID || !hasKeyMaterial m then bindFrom keyID docID ms
      else
        (bindMethod lib (readMethod m)).mapError fun err ↦
          .errorf "verification: bind %q: %w" [err] [] [.str keyID]

/-- `DocumentKeyBinder.Bind`. -/
def bindDocument (keyID : GoString) : Option Document → Outcome Err PublicKey
  | none => .error (.errorf "verification: bind %q: nil DID document" [] [] [.str keyID])
  | some doc => bindFrom lib keyID doc.id doc.verificationMethod

def Selected (doc : Document) (keyID : GoString) (m : Did.Method) : Prop :=
  doc.verificationMethod.find? (fun m ↦ methodMatches m doc.id keyID && hasKeyMaterial m) = some m

theorem bindFrom_eq_ok_iff {keyID docID : GoString} {ms : List Did.Method} {key : PublicKey} :
    bindFrom lib keyID docID ms = .ok key ↔
      ∃ m, ms.find? (fun m ↦ methodMatches m docID keyID && hasKeyMaterial m) = some m ∧
        bindMethod lib (readMethod m) = .ok key := by
  induction ms with
  | nil => simp [bindFrom]
  | cons m ms ih =>
      rw [bindFrom, List.find?_cons, ← Bool.not_and]
      cases hm : methodMatches m docID keyID && hasKeyMaterial m with
      | false => simpa using ih
      | true => simp [Outcome.mapError_eq_ok_iff]

theorem bindDocument_eq_ok_iff {keyID : GoString} {doc : Option Document} {key : PublicKey} :
    bindDocument lib keyID doc = .ok key ↔ ∃ d m, doc = some d ∧ Selected d keyID m ∧
      bindMethod lib (readMethod m) = .ok key := by
  cases doc with
  | none => simp [bindDocument]
  | some d => simp [bindDocument, bindFrom_eq_ok_iff, Selected]

theorem not_selected_accountDocument {id account keyID : GoString} {m : Did.Method} :
    ¬ Selected (DidPkh.accountDocument id account) keyID m := by
  intro h
  have hmaterial := List.find?_some h
  have hmem := List.mem_of_find?_eq_some h
  obtain rfl := List.mem_singleton.mp hmem
  simp [hasKeyMaterial] at hmaterial

end Trust.Verification
