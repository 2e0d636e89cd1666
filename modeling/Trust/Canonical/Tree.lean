import Mathlib
import Trust.Canonical.KeyOrder
import Trust.Canonical.Text

/-!
# Canonical texts and JSON trees

What `appendJCS` writes is a function of the JSON tree: of the finite maps, not
of the order in which they yield their keys, and of the numbers, not of the
literals they were given by.  The tree is parsed back from the text, so trees
that differ have different texts.
-/

namespace Trust.Canonical

open Trust.Lib

/-! ## The text of a tree -/

def canonicalText (t : Json Number) : GoString :=
  Json.write appendJCSString ((t.arrange sortKeys).map numberLiteral)

@[simp] theorem canonicalText_arr (items : List (Json Number)) :
    canonicalText (.arr items) = Json.arrText (items.map canonicalText) := by
  rw [canonicalText, Json.arrange_arr, Json.map_arr, Json.write_arr, List.map_map, List.map_map]
  rfl

@[simp] theorem canonicalText_obj (members : List (GoString × Json Number)) :
    canonicalText (.obj members) = Json.objText appendJCSString
      ((sortKeys (members.map Prod.fst)).map fun k ↦
        (k, ((members.lookup k).map canonicalText).getD Json.nullText)) := by
  rw [canonicalText, Json.arrange_obj, Json.map_obj, Json.write_obj, Json.mapSnd_mapSnd,
    Json.mapSnd, List.map_map]
  refine congrArg _ (List.map_congr_left fun k _ ↦ ?_)
  cases hk : members.lookup k <;> simp [hk] <;> rfl

theorem length_canonicalText {t : Json Number} (ht : t.wellFormed = true) :
    (canonicalText t).length = (Json.write appendJCSString (t.map numberLiteral)).length := by
  induction t with
  | null => rfl
  | bool b => rfl
  | atom a => rfl
  | str s => rfl
  | arr items ih =>
      rw [Json.wellFormed_arr] at ht
      rw [canonicalText_arr, Json.map_arr, Json.write_arr, Json.length_arrText,
        Json.length_arrText]
      simp only [List.map_map, List.length_map]
      congr 3
      exact List.map_congr_left fun t hmem ↦ ih t hmem (ht t hmem)
  | obj members ih =>
      rw [Json.wellFormed_obj] at ht
      obtain ⟨hnodup, hmembers⟩ := ht
      rw [canonicalText_obj, Json.map_obj, Json.write_obj, Json.mapSnd_mapSnd]
      simp only [Json.objText, List.length_cons, List.length_append, Json.length_joinComma,
        List.length_map, Json.mapSnd, List.map_map, (sortKeys_perm _).length_eq]
      congr 3
      have hperm := (sortKeys_perm (members.map Prod.fst)).map fun k ↦
        (Json.memberText appendJCSString
          (k, ((members.lookup k).map canonicalText).getD Json.nullText)).length
      refine hperm.sum_eq.trans ?_
      rw [List.map_map]
      refine congrArg List.sum (List.map_congr_left fun m hm ↦ ?_)
      simp only [Function.comp_apply, Json.lookup_of_mem hnodup hm, Option.map_some,
        Option.getD_some, Json.memberText, List.length_append, List.length_cons]
      rw [ih m hm (hmembers m hm).2]

theorem parse_canonicalText {t : Json Number} (ht : t.wellFormed = true) :
    Json.parse (canonicalText t) = some ((t.arrange sortKeys).map numberLiteral) := by
  refine Json.parse_write quotes_appendJCSString ?_
  rw [Json.wellFormed_map]
  exact Json.wellFormed_arrange sortKeys_perm ht

/-- The literals of a canonical text denote the numbers of the tree. -/
theorem tree_parsed (t : Json Number) :
    (((t.arrange sortKeys).map numberLiteral).map Literal.number).tree = t.tree := by
  have hid : Literal.number ∘ numberLiteral = id := funext number_numberLiteral
  rw [Json.map_map, hid, Json.map_id, Json.tree_arrange sortKeys_perm]

theorem canonicalText_eq_iff {t t' : Json Number} (ht : t.wellFormed = true)
    (ht' : t'.wellFormed = true) : canonicalText t = canonicalText t' ↔ t.tree = t'.tree := by
  constructor
  · intro h
    have hparse := parse_canonicalText ht
    rw [h, parse_canonicalText ht', Option.some.injEq] at hparse
    rw [← tree_parsed t, ← hparse, tree_parsed]
  · intro h
    rw [canonicalText, canonicalText,
      Json.arrange_congr sortKeys_perm sortKeys_congr ht ht' h]

/-! ## Values -/

variable (conv : Strconv)

def Leaf.number? : Leaf → Option Number
  | .number lit =>
      match checkedNumber conv lit with
      | .ok f => some (conv.number f)
      | _ => none
  | .float64 f => if f.isNaN || f.isInf then none else some (conv.number f)
  | .other _ => none

def Holds (v : Json Leaf) (t : Json Number) : Prop := v.map (Leaf.number? conv) = t.map some

variable {conv}

theorem appendJCS_atom {a : Leaf} {n : Number} (h : a.number? conv = some n) :
    appendJCS conv (.atom a) = .ok (numberLiteral n).text := by
  cases a with
  | number lit =>
      rw [Leaf.number?] at h
      split at h
      · rename_i f hf
        obtain rfl := Option.some.inj h
        obtain ⟨-, -, -, hfinite⟩ := checkedNumber_eq_ok_iff.mp hf
        rw [appendJCS, hf, Outcome.ok_bind, appendJCSNumber_eq conv hfinite]
      · cases h
  | float64 f =>
      rw [Leaf.number?] at h
      split_ifs at h with hfin
      obtain rfl := Option.some.inj h
      rw [appendJCS, appendJCSNumber_eq conv (Bool.not_eq_true _ ▸ hfin)]
  | other typeName => cases h

theorem appendItems_eq (items : List (Json Leaf)) :
    appendItems conv items = items.mapM (appendJCS conv) := by
  induction items with
  | nil => rfl
  | cons t items ih =>
      rw [appendItems, List.mapM_cons, ih]
      rfl

theorem appendMembers_eq (members : List (GoString × Json Leaf)) :
    appendMembers conv members = Json.mapSnd (appendJCS conv) members := by
  induction members with
  | nil => rfl
  | cons m members ih => exact congrArg _ ih

theorem appendJCS_eq {v : Json Leaf} {num : Leaf → Number}
    (h : ∀ a ∈ v.atoms, a.number? conv = some (num a)) :
    appendJCS conv v = .ok (canonicalText (v.map num)) := by
  induction v with
  | null => rfl
  | bool b => rfl
  | atom a => exact appendJCS_atom (h a (List.mem_singleton_self a))
  | str s => rfl
  | arr items ih =>
      have hitems := Outcome.mapM_eq_ok fun t ht ↦
        ih t ht fun a ha ↦ h a (Json.mem_atoms_arr.mpr ⟨t, ht, ha⟩)
      rw [appendJCS, appendItems_eq, hitems, Json.map_arr, canonicalText_arr, List.map_map]
      rfl
  | obj members ih =>
      rw [appendJCS, Json.map_obj, canonicalText_obj, Json.keys_mapSnd, appendMembers_eq]
      rw [Outcome.mapM_eq_ok (g := fun k ↦ (k, (((Json.mapSnd (Json.map num) members).lookup k).map
        canonicalText).getD Json.nullText)) fun k hk ↦ ?_]
      · rfl
      · rw [Json.lookup_mapSnd, Json.lookup_mapSnd]
        cases ht : members.lookup k with
        | none => rfl
        | some t =>
            have hmem := Json.mem_of_lookup ht
            have hval := ih _ hmem fun a ha ↦ h a (Json.mem_atoms_obj.mpr ⟨_, hmem, ha⟩)
            rw [Option.map_some, Option.getD_some, hval]
            rfl

theorem number?_of_appendJCS {v : Json Leaf} (hv : v.wellFormed = true) {b : GoString}
    (h : appendJCS conv v = .ok b) : ∀ a ∈ v.atoms, ∃ n, a.number? conv = some n := by
  induction v generalizing b with
  | null => exact fun a ha ↦ absurd ha List.not_mem_nil
  | bool b => exact fun a ha ↦ absurd ha List.not_mem_nil
  | atom a =>
      intro a' ha
      obtain rfl := List.mem_singleton.mp ha
      cases a' with
      | number lit =>
          rw [appendJCS, Outcome.bind_eq_ok_iff] at h
          obtain ⟨f, hf, -⟩ := h
          exact ⟨conv.number f, by rw [Leaf.number?, hf]⟩
      | float64 f =>
          by_cases hfinite : (f.isNaN || f.isInf) = true
          · rw [appendJCS, appendJCSNumber, if_pos hfinite] at h
            cases h
          · exact ⟨conv.number f, by rw [Leaf.number?, if_neg hfinite]⟩
      | other typeName => cases h
  | str s => exact fun a ha ↦ absurd ha List.not_mem_nil
  | arr items ih =>
      rw [Json.wellFormed_arr] at hv
      rw [appendJCS, Outcome.bind_eq_ok_iff, appendItems_eq] at h
      obtain ⟨texts, htexts, -⟩ := h
      intro a ha
      obtain ⟨t, ht, hat⟩ := Json.mem_atoms_arr.mp ha
      obtain ⟨b, hb⟩ := Outcome.exists_of_mapM_eq_ok htexts t ht
      exact ih t ht (hv t ht) hb a hat
  | obj members ih =>
      obtain ⟨hnodup, hmembers⟩ := Json.wellFormed_obj.mp hv
      rw [appendJCS, Outcome.bind_eq_ok_iff, appendMembers_eq] at h
      obtain ⟨texts, htexts, -⟩ := h
      intro a ha
      obtain ⟨m, hm, ham⟩ := Json.mem_atoms_obj.mp ha
      have hk : m.1 ∈ sortKeys (members.map Prod.fst) :=
        (sortKeys_perm _).mem_iff.mpr (List.mem_map_of_mem hm)
      obtain ⟨b, hb⟩ := Outcome.exists_of_mapM_eq_ok htexts m.1 hk
      rw [Json.lookup_mapSnd, Json.lookup_of_mem hnodup hm, Outcome.bind_eq_ok_iff] at hb
      obtain ⟨text, htext, -⟩ := hb
      exact ih m hm (hmembers m hm).2 htext a ham

theorem appendJCS_of_holds {v : Json Leaf} {t : Json Number} (h : Holds conv v t) :
    appendJCS conv v = .ok (canonicalText t) := by
  have hatoms : ∀ a ∈ v.atoms, a.number? conv = some ((a.number? conv).getD .zero) := by
    intro a ha
    have hmem : a.number? conv ∈ (v.map (Leaf.number? conv)).atoms := by
      rw [Json.atoms_map]
      exact List.mem_map_of_mem ha
    rw [h, Json.atoms_map] at hmem
    obtain ⟨n, -, hn⟩ := List.mem_map.mp hmem
    rw [← hn]
    rfl
  have hmap : v.map (fun a ↦ (a.number? conv).getD .zero) = t := by
    have hcomp := congrArg (Json.map fun o : Option Number ↦ o.getD .zero) h
    rw [Json.map_map, Json.map_map] at hcomp
    exact hcomp.trans (Json.map_id t)
  rw [appendJCS_eq hatoms, hmap]

theorem wellFormed_of_holds {v : Json Leaf} {t : Json Number} (h : Holds conv v t)
    (hv : v.wellFormed = true) : t.wellFormed = true := by
  rw [← Json.wellFormed_map (Leaf.number? conv), h, Json.wellFormed_map] at hv
  exact hv

/-- A tree has one canonical text, whatever order its maps are iterated in; the
text is JSON and is parsed back to the tree; another tree has another text. -/
theorem appendJCS_tree (conv : Strconv) {v : Json Leaf} {t : Json Number} (h : Holds conv v t)
    (hv : v.wellFormed = true) :
    ∃ b, appendJCS conv v = .ok b ∧
      (∃ p, Json.parse b = some p ∧ (p.map Literal.number).tree = t.tree) ∧
      ∀ v' t', Holds conv v' t' → v'.wellFormed = true →
        (appendJCS conv v' = .ok b ↔ t'.tree = t.tree) := by
  have ht := wellFormed_of_holds h hv
  refine ⟨canonicalText t, appendJCS_of_holds h, ⟨_, parse_canonicalText ht, tree_parsed t⟩, ?_⟩
  intro v' t' h' hv'
  rw [appendJCS_of_holds h', Outcome.ok.injEq]
  exact canonicalText_eq_iff (wellFormed_of_holds h' hv') ht

def sampleStrconv : Strconv where
  parseFloat _ := (⟨0x3ff8000000000000⟩, none)
  shortest _ := ⟨15, -1, by decide, by decide⟩
  point_lt _ := by decide +kernel

def sampleValue : Json Leaf :=
  .obj [([98], .arr [.atom (.number [49, 46, 53, 48]), .str [195, 169, 10]]),
    ([97], .atom (.float64 ⟨0xbff8000000000000⟩))]

def sampleTree : Json Number :=
  .obj [([98], .arr [.atom (.nonzero false ⟨15, -1, by decide, by decide⟩), .str [195, 169, 10]]),
    ([97], .atom (.nonzero true ⟨15, -1, by decide, by decide⟩))]

theorem appendJCS_tree_sampleValue :
    Holds sampleStrconv sampleValue sampleTree ∧ sampleValue.wellFormed = true ∧
      ∃ b, appendJCS sampleStrconv sampleValue = .ok b ∧
        (∃ p, Json.parse b = some p ∧ (p.map Literal.number).tree = sampleTree.tree) ∧
        ∀ v' t', Holds sampleStrconv v' t' → v'.wellFormed = true →
          (appendJCS sampleStrconv v' = .ok b ↔ t'.tree = sampleTree.tree) := by
  have hholds : Holds sampleStrconv sampleValue sampleTree := rfl
  have hwf : sampleValue.wellFormed = true := by decide +kernel
  exact ⟨hholds, hwf, appendJCS_tree sampleStrconv hholds hwf⟩

end Trust.Canonical
