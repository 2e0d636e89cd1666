import Mathlib
import Trust.Lib.Json

/-!
# Values read off their trees

A tree tells the kind of a value, and all of it for a string.  Two objects with one
tree have members with one tree under each name, also after their atoms are mapped.
-/

namespace Trust.Lib.Json

variable {α β : Type}

theorem eq_of_tree {t t' : Json α} (h : t'.tree = t.tree) (harr : ∀ items, t ≠ .arr items)
    (hobj : ∀ members, t ≠ .obj members) : t' = t := by
  cases t with
  | arr items => exact absurd rfl (harr items)
  | obj members => exact absurd rfl (hobj members)
  | null | bool | atom | str =>
      cases t' with
      | arr items => rw [tree_arr] at h; cases h
      | obj members => rw [tree_obj] at h; cases h
      | null | bool | atom | str => cases h <;> rfl

theorem exists_arr_of_tree {t : Json α} {trees : List (JsonTree α)} (h : t.tree = .arr trees) :
    ∃ items, t = .arr items ∧ items.map tree = trees := by
  cases t with
  | arr items =>
      rw [tree_arr] at h
      exact ⟨items, rfl, JsonTree.arr.inj h⟩
  | obj members => rw [tree_obj] at h; cases h
  | null | bool | atom | str => cases h

theorem exists_obj_of_tree {t : Json α} {trees : GoString → Option (JsonTree α)}
    (h : t.tree = .obj trees) :
    ∃ members, t = .obj members ∧ ∀ name, (members.lookup name).map tree = trees name := by
  cases t with
  | obj members =>
      rw [tree_obj] at h
      exact ⟨members, rfl, congrFun (JsonTree.obj.inj h)⟩
  | arr items => rw [tree_arr] at h; cases h
  | null | bool | atom | str => cases h

theorem tree_map_congr (f : α → β) {t t' : Json α} (h : t'.tree = t.tree) :
    (t'.map f).tree = (t.map f).tree := by
  induction t generalizing t' with
  | null => rw [eq_of_tree h nofun nofun]
  | bool b => rw [eq_of_tree h nofun nofun]
  | atom a => rw [eq_of_tree h nofun nofun]
  | str s => rw [eq_of_tree h nofun nofun]
  | arr items ih =>
      rw [tree_arr] at h
      obtain ⟨items', rfl, hitems⟩ := exists_arr_of_tree h
      rw [map_arr, map_arr, tree_arr, tree_arr, List.map_map, List.map_map]
      refine congrArg JsonTree.arr (List.ext_getElem ?_ fun i hi hi' ↦ ?_)
      · simpa using congrArg List.length hitems
      · have hget := List.getElem_of_eq hitems (i := i) (by simpa using hi)
        rw [List.getElem_map, List.getElem_map] at hget ⊢
        exact ih _ (List.getElem_mem _) hget
  | obj members ih =>
      rw [tree_obj] at h
      obtain ⟨members', rfl, hmembers⟩ := exists_obj_of_tree h
      rw [map_obj, map_obj, tree_obj, tree_obj]
      refine congrArg JsonTree.obj (funext fun name ↦ ?_)
      have hname := hmembers name
      rw [lookup_mapSnd, lookup_mapSnd]
      cases hu : members.lookup name with
      | none =>
          rw [hu, Option.map_none, Option.map_eq_none_iff] at hname
          rw [hname]
      | some u =>
          rw [hu, Option.map_some, Option.map_eq_some_iff] at hname
          obtain ⟨u', hu', htree⟩ := hname
          rw [hu']
          exact congrArg some (ih _ (mem_of_lookup hu) htree)

theorem lookup_eq_none_of_notMem {members : List (GoString × Json α)} {name : GoString}
    (h : name ∉ members.map Prod.fst) : members.lookup name = none := by
  apply Option.eq_none_iff_forall_ne_some.mpr
  intro t ht
  exact h (exists_lookup_iff.mp ⟨t, ht⟩)

section Lookup

variable {raw : List (GoString × Json β)} {members : List (GoString × Json α)} {f : α → β}
  (h : (obj raw).tree = ((obj members).map f).tree) {name : GoString}

include h

theorem lookup_of_tree (name : GoString) :
    (raw.lookup name).map tree = (members.lookup name).map fun t ↦ (t.map f).tree := by
  rw [map_obj, tree_obj, tree_obj] at h
  have hname := congrFun (JsonTree.obj.inj h) name
  rw [lookup_mapSnd, Option.map_map] at hname
  exact hname

theorem lookup_eq_none_of_tree (hname : members.lookup name = none) : raw.lookup name = none := by
  have htree := lookup_of_tree h name
  rw [hname] at htree
  exact Option.map_eq_none_iff.mp htree

theorem lookup_eq_str_of_tree {s : GoString} (hname : members.lookup name = some (.str s)) :
    raw.lookup name = some (.str s) := by
  have htree := lookup_of_tree h name
  rw [hname, Option.map_some, Option.map_eq_some_iff] at htree
  obtain ⟨t, ht, hstr⟩ := htree
  rw [ht, eq_of_tree (t := .str s) hstr nofun nofun]

end Lookup

end Trust.Lib.Json
