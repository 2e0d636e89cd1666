import Mathlib
import Trust.Lib.Utf8

/-!
# JSON trees

A JSON value with its object members in some order, over any type of atoms;
and the tree it stands for, where an object is a finite map.  Functions on
values are folds.  Arranging the members of every object in one order that
depends on the keys only gives values with the same tree the same form.
-/

namespace Trust.Lib

inductive Json (α : Type) where
  | null
  | bool (b : Bool)
  | atom (a : α)
  | str (s : GoString)
  | arr (items : List (Json α))
  | obj (members : List (GoString × Json α))

namespace Json

variable {α β ρ : Type}

/-- What a fold does at each kind of node. -/
structure Alg (α ρ : Type) where
  null : ρ
  bool : Bool → ρ
  atom : α → ρ
  str : GoString → ρ
  arr : List ρ → ρ
  obj : List (GoString × ρ) → ρ

mutual

def fold (g : Alg α ρ) : Json α → ρ
  | .null => g.null
  | .bool b => g.bool b
  | .atom a => g.atom a
  | .str s => g.str s
  | .arr items => g.arr (foldItems g items)
  | .obj members => g.obj (foldMembers g members)

def foldItems (g : Alg α ρ) : List (Json α) → List ρ
  | [] => []
  | t :: ts => fold g t :: foldItems g ts

def foldMembers (g : Alg α ρ) : List (GoString × Json α) → List (GoString × ρ)
  | [] => []
  | (k, t) :: ms => (k, fold g t) :: foldMembers g ms

end

def mapSnd {γ δ : Type} (f : γ → δ) (ms : List (GoString × γ)) : List (GoString × δ) :=
  ms.map fun m ↦ (m.1, f m.2)

section Fold

variable (g : Alg α ρ)

@[simp] theorem fold_null : (null : Json α).fold g = g.null := rfl

@[simp] theorem fold_bool (b : Bool) : (bool b : Json α).fold g = g.bool b := rfl

@[simp] theorem fold_atom (a : α) : (atom a).fold g = g.atom a := rfl

@[simp] theorem fold_str (s : GoString) : (str s : Json α).fold g = g.str s := rfl

@[simp] theorem fold_arr (items : List (Json α)) :
    (arr items).fold g = g.arr (items.map (fold g)) := by
  have hitems : ∀ ts : List (Json α), foldItems g ts = ts.map (fold g) := by
    intro ts
    induction ts with
    | nil => rfl
    | cons t ts ih => exact congrArg _ ih
  exact congrArg g.arr (hitems items)

@[simp] theorem fold_obj (members : List (GoString × Json α)) :
    (obj members).fold g = g.obj (mapSnd (fold g) members) := by
  have hmembers : ∀ ms : List (GoString × Json α), foldMembers g ms = mapSnd (fold g) ms := by
    intro ms
    induction ms with
    | nil => rfl
    | cons m ms ih => exact congrArg _ ih
  exact congrArg g.obj (hmembers members)

end Fold

/-- Induction on a value, with a hypothesis for every item and every member. -/
@[elab_as_elim, induction_eliminator]
theorem induct {P : Json α → Prop} (null : P .null) (bool : ∀ b, P (.bool b))
    (atom : ∀ a, P (.atom a)) (str : ∀ s, P (.str s))
    (arr : ∀ items, (∀ t ∈ items, P t) → P (.arr items))
    (obj : ∀ members, (∀ m ∈ members, P m.2) → P (.obj members)) (t : Json α) : P t := by
  refine @Json.rec α P (fun items ↦ ∀ t ∈ items, P t) (fun members ↦ ∀ m ∈ members, P m.2)
    (fun m ↦ P m.2) null bool atom str arr obj ?_ ?_ ?_ ?_ ?_ t
  · exact fun t ht ↦ absurd ht List.not_mem_nil
  · exact fun t ts ht hts ↦ List.forall_mem_cons.mpr ⟨ht, hts⟩
  · exact fun m hm ↦ absurd hm List.not_mem_nil
  · exact fun m ms hm hms ↦ List.forall_mem_cons.mpr ⟨hm, hms⟩
  · exact fun k t ht ↦ ht

/-! ## Members of an object -/

section Members

variable {γ δ : Type}

@[simp] theorem keys_mapSnd (f : γ → δ) (ms : List (GoString × γ)) :
    (mapSnd f ms).map Prod.fst = ms.map Prod.fst := by
  rw [mapSnd, List.map_map]
  rfl

theorem mapSnd_mapSnd {ε : Type} (f : γ → δ) (g : δ → ε) (ms : List (GoString × γ)) :
    mapSnd g (mapSnd f ms) = mapSnd (g ∘ f) ms := by
  rw [mapSnd, mapSnd, List.map_map]
  rfl

theorem mapSnd_congr {f g : γ → δ} {ms : List (GoString × γ)} (h : ∀ m ∈ ms, f m.2 = g m.2) :
    mapSnd f ms = mapSnd g ms := by
  apply List.map_congr_left
  intro m hm
  rw [h m hm]

theorem lookup_mapSnd (f : γ → δ) (ms : List (GoString × γ)) (k : GoString) :
    (mapSnd f ms).lookup k = (ms.lookup k).map f := by
  induction ms with
  | nil => rfl
  | cons m ms ih =>
      rw [mapSnd, List.map_cons, List.lookup_cons, List.lookup_cons, ← mapSnd, ih]
      split <;> rfl

theorem mem_of_lookup {ms : List (GoString × γ)} {k : GoString} {t : γ}
    (h : ms.lookup k = some t) : (k, t) ∈ ms := by
  induction ms with
  | nil => cases h
  | cons m ms ih =>
      rw [List.lookup_cons] at h
      split at h
      · rename_i hk
        obtain rfl := eq_of_beq hk
        obtain rfl := Option.some.inj h
        exact List.mem_cons_self
      · exact List.mem_cons_of_mem m (ih h)

theorem exists_lookup_iff {ms : List (GoString × γ)} {k : GoString} :
    (∃ t, ms.lookup k = some t) ↔ k ∈ ms.map Prod.fst := by
  induction ms with
  | nil => simp
  | cons m ms ih =>
      rw [List.lookup_cons, List.map_cons, List.mem_cons, ← ih]
      split
      · rename_i hk
        simp [eq_of_beq hk]
      · rename_i hk
        have hne : k ≠ m.1 := by
          rintro rfl
          simp at hk
        simp [hne]

theorem lookup_map_self (f : GoString → γ) (ks : List GoString) (k : GoString) :
    (ks.map fun j ↦ (j, f j)).lookup k = if k ∈ ks then some (f k) else none := by
  induction ks with
  | nil => rfl
  | cons j ks ih =>
      rw [List.map_cons, List.lookup_cons, ih]
      split
      · rename_i hk
        simp [eq_of_beq hk]
      · rename_i hk
        have hne : k ≠ j := by
          rintro rfl
          simp at hk
        simp [hne]

end Members

/-! ## Folds -/

/-- Apply a function to every atom. -/
def map (f : α → β) : Json α → Json β := fold ⟨null, bool, atom ∘ f, str, arr, obj⟩

def atoms : Json α → List α :=
  fold ⟨[], fun _ ↦ [], fun a ↦ [a], fun _ ↦ [], List.flatten,
    fun ms ↦ (ms.map Prod.snd).flatten⟩

def depth : Json α → ℕ :=
  fold ⟨0, fun _ ↦ 0, fun _ ↦ 0, fun _ ↦ 0, fun ds ↦ ds.foldr max 0 + 1,
    fun ms ↦ (ms.map Prod.snd).foldr max 0 + 1⟩

/-- Strings and keys are valid UTF-8, and no object has a key twice. -/
def wellFormed : Json α → Bool :=
  fold ⟨true, fun _ ↦ true, fun _ ↦ true, fun s ↦ decide (Utf8.Valid s), fun bs ↦ bs.all id,
    fun ms ↦ decide (ms.map Prod.fst).Nodup && ms.all fun m ↦ decide (Utf8.Valid m.1) && m.2⟩

section Equations

variable (f : α → β)

@[simp] theorem map_null : (null : Json α).map f = null := rfl

@[simp] theorem map_bool (b : Bool) : (bool b : Json α).map f = bool b := rfl

@[simp] theorem map_atom (a : α) : (atom a).map f = atom (f a) := rfl

@[simp] theorem map_str (s : GoString) : (str s : Json α).map f = str s := rfl

@[simp] theorem map_arr (items : List (Json α)) : (arr items).map f = arr (items.map (map f)) :=
  fold_arr _ items

@[simp] theorem map_obj (members : List (GoString × Json α)) :
    (obj members).map f = obj (mapSnd (map f) members) := fold_obj _ members

@[simp] theorem atoms_atom (a : α) : (atom a).atoms = [a] := rfl

theorem atoms_arr (items : List (Json α)) : (arr items).atoms = (items.map atoms).flatten :=
  fold_arr _ items

theorem atoms_obj (members : List (GoString × Json α)) :
    (obj members).atoms = (members.map fun m ↦ m.2.atoms).flatten := by
  refine (fold_obj _ members).trans ?_
  dsimp only
  rw [mapSnd, List.map_map]
  rfl

@[simp] theorem mem_atoms_arr {a : α} {items : List (Json α)} :
    a ∈ (arr items).atoms ↔ ∃ t ∈ items, a ∈ t.atoms := by
  simp [atoms_arr]

@[simp] theorem mem_atoms_obj {a : α} {members : List (GoString × Json α)} :
    a ∈ (obj members).atoms ↔ ∃ m ∈ members, a ∈ m.2.atoms := by
  simp [atoms_obj]

theorem foldr_max_le {ds : List ℕ} {n : ℕ} : ds.foldr max 0 ≤ n ↔ ∀ d ∈ ds, d ≤ n := by
  induction ds with
  | nil => simp
  | cons d ds ih => rw [List.foldr_cons, max_le_iff, ih, List.forall_mem_cons]

theorem depth_arr_le {items : List (Json α)} {n : ℕ} :
    (arr items).depth ≤ n + 1 ↔ ∀ t ∈ items, t.depth ≤ n := by
  rw [depth, fold_arr, ← depth, Nat.add_le_add_iff_right, foldr_max_le, List.forall_mem_map]

theorem depth_obj_le {members : List (GoString × Json α)} {n : ℕ} :
    (obj members).depth ≤ n + 1 ↔ ∀ m ∈ members, m.2.depth ≤ n := by
  rw [depth, fold_obj, ← depth, Nat.add_le_add_iff_right, foldr_max_le, List.forall_mem_map,
    mapSnd, List.forall_mem_map]

theorem depth_arr_pos (items : List (Json α)) : 0 < (arr items).depth := by
  rw [depth, fold_arr]
  exact Nat.succ_pos _

theorem depth_obj_pos (members : List (GoString × Json α)) : 0 < (obj members).depth := by
  rw [depth, fold_obj]
  exact Nat.succ_pos _

@[simp] theorem wellFormed_str {s : GoString} :
    (str s : Json α).wellFormed = true ↔ Utf8.Valid s := by
  rw [wellFormed, fold_str, decide_eq_true_eq]

@[simp] theorem wellFormed_arr {items : List (Json α)} :
    (arr items).wellFormed = true ↔ ∀ t ∈ items, t.wellFormed = true := by
  rw [wellFormed, fold_arr, ← wellFormed]
  simp

@[simp] theorem wellFormed_obj {members : List (GoString × Json α)} :
    (obj members).wellFormed = true ↔ (members.map Prod.fst).Nodup ∧
      ∀ m ∈ members, Utf8.Valid m.1 ∧ m.2.wellFormed = true := by
  rw [wellFormed, fold_obj, ← wellFormed]
  dsimp only
  rw [keys_mapSnd]
  simp [mapSnd]

end Equations

theorem map_map {γ : Type} (f : α → β) (g : β → γ) (t : Json α) :
    (t.map f).map g = t.map (g ∘ f) := by
  induction t with
  | null => rfl
  | bool b => rfl
  | atom a => rfl
  | str s => rfl
  | arr items ih =>
      rw [map_arr, map_arr, map_arr, List.map_map]
      exact congrArg arr (List.map_congr_left ih)
  | obj members ih =>
      rw [map_obj, map_obj, map_obj, mapSnd_mapSnd]
      exact congrArg obj (mapSnd_congr ih)

theorem map_congr {f g : α → β} {t : Json α} (h : ∀ a ∈ t.atoms, f a = g a) :
    t.map f = t.map g := by
  induction t with
  | null => rfl
  | bool b => rfl
  | atom a => exact congrArg atom (h a (List.mem_singleton_self a))
  | str s => rfl
  | arr items ih =>
      rw [map_arr, map_arr]
      refine congrArg arr (List.map_congr_left fun t ht ↦ ih t ht fun a ha ↦ h a ?_)
      exact mem_atoms_arr.mpr ⟨t, ht, ha⟩
  | obj members ih =>
      rw [map_obj, map_obj]
      refine congrArg obj (mapSnd_congr fun m hm ↦ ih m hm fun a ha ↦ h a ?_)
      exact mem_atoms_obj.mpr ⟨m, hm, ha⟩

theorem map_id (t : Json α) : t.map id = t := by
  induction t with
  | null => rfl
  | bool b => rfl
  | atom a => rfl
  | str s => rfl
  | arr items ih =>
      rw [map_arr]
      exact congrArg arr ((List.map_congr_left ih).trans (List.map_id items))
  | obj members ih =>
      have hid : mapSnd id members = members := List.map_id members
      rw [map_obj, mapSnd_congr (g := id) ih, hid]

theorem atoms_map (f : α → β) (t : Json α) : (t.map f).atoms = t.atoms.map f := by
  induction t with
  | null => rfl
  | bool b => rfl
  | atom a => rfl
  | str s => rfl
  | arr items ih =>
      rw [map_arr, atoms_arr, atoms_arr, List.map_map, List.map_flatten, List.map_map]
      exact congrArg List.flatten (List.map_congr_left ih)
  | obj members ih =>
      rw [map_obj, atoms_obj, atoms_obj, mapSnd, List.map_map, List.map_flatten, List.map_map]
      exact congrArg List.flatten (List.map_congr_left ih)

@[simp] theorem wellFormed_map (f : α → β) (t : Json α) :
    (t.map f).wellFormed = t.wellFormed := by
  induction t with
  | null => rfl
  | bool b => rfl
  | atom a => rfl
  | str s => rfl
  | arr items ih =>
      rw [Bool.eq_iff_iff, map_arr, wellFormed_arr, wellFormed_arr, List.forall_mem_map]
      exact forall₂_congr fun t ht ↦ by rw [ih t ht]
  | obj members ih =>
      rw [Bool.eq_iff_iff, map_obj, wellFormed_obj, wellFormed_obj, keys_mapSnd, mapSnd,
        List.forall_mem_map]
      exact and_congr_right' (forall₂_congr fun m hm ↦ by rw [ih m hm])

@[simp] theorem depth_map (f : α → β) (t : Json α) : (t.map f).depth = t.depth := by
  have hle : ∀ n, (t.map f).depth ≤ n ↔ t.depth ≤ n := by
    induction t with
    | null => exact fun n ↦ Iff.rfl
    | bool b => exact fun n ↦ Iff.rfl
    | atom a => exact fun n ↦ Iff.rfl
    | str s => exact fun n ↦ Iff.rfl
    | arr items ih =>
        intro n
        rw [map_arr]
        cases n with
        | zero => simp [(depth_arr_pos _).ne']
        | succ n =>
            rw [depth_arr_le, depth_arr_le, List.forall_mem_map]
            exact forall₂_congr fun t ht ↦ ih t ht n
    | obj members ih =>
        intro n
        rw [map_obj]
        cases n with
        | zero => simp [(depth_obj_pos _).ne']
        | succ n =>
            rw [depth_obj_le, depth_obj_le, mapSnd, List.forall_mem_map]
            exact forall₂_congr fun m hm ↦ ih m hm n
  exact le_antisymm ((hle _).mpr le_rfl) ((hle _).mp le_rfl)

/-! ## The tree of a value -/

end Json

/-- A JSON tree: the members of an object are a finite map. -/
inductive JsonTree (α : Type) where
  | null
  | bool (b : Bool)
  | atom (a : α)
  | str (s : GoString)
  | arr (items : List (JsonTree α))
  | obj (members : GoString → Option (JsonTree α))

namespace Json

variable {α β : Type}

def tree : Json α → JsonTree α :=
  fold ⟨.null, .bool, .atom, .str, .arr, fun ms ↦ .obj fun k ↦ ms.lookup k⟩

@[simp] theorem tree_arr (items : List (Json α)) : (arr items).tree = .arr (items.map tree) :=
  fold_arr _ items

@[simp] theorem tree_obj (members : List (GoString × Json α)) :
    (obj members).tree = .obj fun k ↦ (members.lookup k).map tree := by
  refine (fold_obj _ members).trans (congrArg JsonTree.obj ?_)
  funext k
  exact lookup_mapSnd tree members k

/-! ## Members in one order -/

section Arrange

/-- Put the members of every object in the order that `sort` gives their
keys. -/
def arrange (sort : List GoString → List GoString) : Json α → Json α :=
  fold ⟨null, bool, atom, str, arr,
    fun ms ↦ obj ((sort (ms.map Prod.fst)).map fun k ↦ (k, (ms.lookup k).getD null))⟩

variable {sort : List GoString → List GoString}

@[simp] theorem arrange_arr (items : List (Json α)) :
    (arr items).arrange sort = arr (items.map (arrange sort)) := fold_arr _ items

@[simp] theorem arrange_obj (members : List (GoString × Json α)) :
    (obj members).arrange sort = obj ((sort (members.map Prod.fst)).map fun k ↦
      (k, ((members.lookup k).map (arrange sort)).getD null)) := by
  refine (fold_obj _ members).trans ?_
  dsimp only
  rw [keys_mapSnd]
  refine congrArg obj (List.map_congr_left fun k _ ↦ ?_)
  rw [lookup_mapSnd]
  rfl

theorem map_arrange (f : α → β) (t : Json α) :
    (t.arrange sort).map f = (t.map f).arrange sort := by
  induction t with
  | null => rfl
  | bool b => rfl
  | atom a => rfl
  | str s => rfl
  | arr items ih =>
      rw [arrange_arr, map_arr, map_arr, arrange_arr, List.map_map, List.map_map]
      exact congrArg arr (List.map_congr_left ih)
  | obj members ih =>
      rw [arrange_obj, map_obj, map_obj, arrange_obj, keys_mapSnd, mapSnd, List.map_map]
      refine congrArg obj (List.map_congr_left fun k _ ↦ ?_)
      rw [lookup_mapSnd]
      cases hk : members.lookup k with
      | none => simp [hk]
      | some t => simp [hk, ih (k, t) (mem_of_lookup hk)]

theorem mem_of_mem_sort (hsort : ∀ ks, (sort ks).Perm ks) {members : List (GoString × Json α)}
    {k : GoString} (hk : k ∈ sort (members.map Prod.fst)) :
    ∃ t, members.lookup k = some t :=
  exists_lookup_iff.mpr ((hsort _).mem_iff.mp hk)

theorem tree_arrange (hsort : ∀ ks, (sort ks).Perm ks) (t : Json α) :
    (t.arrange sort).tree = t.tree := by
  induction t with
  | null => rfl
  | bool b => rfl
  | atom a => rfl
  | str s => rfl
  | arr items ih =>
      rw [arrange_arr, tree_arr, tree_arr, List.map_map]
      exact congrArg JsonTree.arr (List.map_congr_left ih)
  | obj members ih =>
      rw [arrange_obj, tree_obj, tree_obj]
      refine congrArg JsonTree.obj (funext fun k ↦ ?_)
      have hmem : k ∈ sort (members.map Prod.fst) ↔ ∃ t, members.lookup k = some t :=
        (hsort _).mem_iff.trans exists_lookup_iff.symm
      rw [lookup_map_self]
      cases hk : members.lookup k with
      | none => simp [hmem, hk]
      | some t => simp [hmem, hk, ih (k, t) (mem_of_lookup hk)]

theorem wellFormed_arrange (hsort : ∀ ks, (sort ks).Perm ks) {t : Json α}
    (h : t.wellFormed = true) : (t.arrange sort).wellFormed = true := by
  induction t with
  | null => rfl
  | bool b => rfl
  | atom a => rfl
  | str s => exact h
  | arr items ih =>
      rw [wellFormed_arr] at h
      rw [arrange_arr, wellFormed_arr, List.forall_mem_map]
      exact fun t ht ↦ ih t ht (h t ht)
  | obj members ih =>
      obtain ⟨hnodup, hmembers⟩ := wellFormed_obj.mp h
      rw [arrange_obj, wellFormed_obj, List.map_map, List.forall_mem_map]
      refine ⟨?_, fun k hk ↦ ?_⟩
      · have hkeys := (hsort (members.map Prod.fst)).nodup_iff.mpr hnodup
        simpa [Function.comp_def] using hkeys
      · obtain ⟨t, ht⟩ := mem_of_mem_sort hsort hk
        have hmem := mem_of_lookup ht
        rw [ht]
        exact ⟨(hmembers _ hmem).1, ih _ hmem (hmembers _ hmem).2⟩

theorem depth_arrange_le (hsort : ∀ ks, (sort ks).Perm ks) {t : Json α} {n : ℕ}
    (h : t.depth ≤ n) : (t.arrange sort).depth ≤ n := by
  induction t generalizing n with
  | null => exact h
  | bool b => exact h
  | atom a => exact h
  | str s => exact h
  | arr items ih =>
      cases n with
      | zero => exact absurd h (Nat.not_le.mpr (depth_arr_pos items))
      | succ n =>
          rw [depth_arr_le] at h
          rw [arrange_arr, depth_arr_le, List.forall_mem_map]
          exact fun t ht ↦ ih t ht (h t ht)
  | obj members ih =>
      cases n with
      | zero => exact absurd h (Nat.not_le.mpr (depth_obj_pos members))
      | succ n =>
          rw [depth_obj_le] at h
          rw [arrange_obj, depth_obj_le, List.forall_mem_map]
          intro k hk
          obtain ⟨t, ht⟩ := mem_of_mem_sort hsort hk
          have hmem := mem_of_lookup ht
          rw [ht]
          exact ih _ hmem (h _ hmem)

theorem lookup_of_mem {members : List (GoString × Json α)} (hnodup : (members.map Prod.fst).Nodup)
    {m : GoString × Json α} (hm : m ∈ members) : members.lookup m.1 = some m.2 := by
  obtain ⟨t, ht⟩ := exists_lookup_iff.mpr (List.mem_map_of_mem hm)
  have hinj := List.inj_on_of_nodup_map hnodup hm (mem_of_lookup ht) rfl
  rw [ht, hinj]

theorem mem_atoms_arrange (hsort : ∀ ks, (sort ks).Perm ks) {t : Json α}
    (h : t.wellFormed = true) {a : α} : a ∈ (t.arrange sort).atoms ↔ a ∈ t.atoms := by
  induction t with
  | null => exact Iff.rfl
  | bool b => exact Iff.rfl
  | atom b => exact Iff.rfl
  | str s => exact Iff.rfl
  | arr items ih =>
      rw [wellFormed_arr] at h
      rw [arrange_arr, mem_atoms_arr, mem_atoms_arr]
      constructor
      · rintro ⟨u, hu, ha⟩
        obtain ⟨t, ht, rfl⟩ := List.mem_map.mp hu
        exact ⟨t, ht, (ih t ht (h t ht)).mp ha⟩
      · rintro ⟨t, ht, ha⟩
        exact ⟨_, List.mem_map_of_mem ht, (ih t ht (h t ht)).mpr ha⟩
  | obj members ih =>
      obtain ⟨hnodup, hmembers⟩ := wellFormed_obj.mp h
      rw [arrange_obj, mem_atoms_obj, mem_atoms_obj]
      constructor
      · rintro ⟨m, hm, ha⟩
        obtain ⟨k, hk, rfl⟩ := List.mem_map.mp hm
        obtain ⟨t, ht⟩ := mem_of_mem_sort hsort hk
        have hmem := mem_of_lookup ht
        rw [ht] at ha
        exact ⟨_, hmem, (ih _ hmem (hmembers _ hmem).2).mp ha⟩
      · rintro ⟨m, hm, ha⟩
        have hk : m.1 ∈ sort (members.map Prod.fst) :=
          (hsort _).mem_iff.mpr (List.mem_map_of_mem hm)
        refine ⟨_, List.mem_map_of_mem hk, ?_⟩
        rw [lookup_of_mem hnodup hm]
        exact (ih m hm (hmembers m hm).2).mpr ha

theorem map_eq_map_of_forall {γ δ ε : Type} {f : γ → δ} {g : γ → ε} {xs ys : List γ}
    (h : xs.map f = ys.map f) (hg : ∀ x ∈ xs, ∀ y ∈ ys, f x = f y → g x = g y) :
    xs.map g = ys.map g := by
  induction xs generalizing ys with
  | nil =>
      rw [List.map_nil, eq_comm, List.map_eq_nil_iff] at h
      rw [h]
  | cons x xs ih =>
      obtain ⟨y, ys, rfl, hy, hys⟩ := List.map_eq_cons_iff.mp h.symm
      rw [List.map_cons, List.map_cons,
        hg x List.mem_cons_self y List.mem_cons_self hy.symm,
        ih hys.symm fun a ha b hb ↦ hg a (List.mem_cons_of_mem x ha) b (List.mem_cons_of_mem y hb)]

theorem arrange_congr (hsort : ∀ ks, (sort ks).Perm ks)
    (hcongr : ∀ ks ks', (∀ k ∈ ks, Utf8.Valid k) → ks.Perm ks' → sort ks = sort ks')
    {t t' : Json α} (ht : t.wellFormed = true) (ht' : t'.wellFormed = true)
    (h : t.tree = t'.tree) : t.arrange sort = t'.arrange sort := by
  induction t generalizing t' with
  | null => cases t' <;> cases h; rfl
  | bool b => cases t' <;> cases h; rfl
  | atom a => cases t' <;> cases h; rfl
  | str s => cases t' <;> cases h; rfl
  | arr items ih =>
      cases t' with
      | arr items' =>
          rw [tree_arr, tree_arr] at h
          rw [wellFormed_arr] at ht ht'
          rw [arrange_arr, arrange_arr]
          refine congrArg arr (map_eq_map_of_forall (JsonTree.arr.inj h) fun u hu u' hu' hu'' ↦ ?_)
          exact ih u hu (ht u hu) (ht' u' hu') hu''
      | _ =>
          rw [tree_arr] at h
          cases h
  | obj members ih =>
      cases t' with
      | obj members' =>
          obtain ⟨hnodup, hmembers⟩ := wellFormed_obj.mp ht
          obtain ⟨hnodup', hmembers'⟩ := wellFormed_obj.mp ht'
          rw [tree_obj, tree_obj] at h
          have hlookup : ∀ k, (members.lookup k).map tree = (members'.lookup k).map tree :=
            congrFun (JsonTree.obj.inj h)
          have hkeys : (members.map Prod.fst).Perm (members'.map Prod.fst) := by
            rw [List.perm_ext_iff_of_nodup hnodup hnodup']
            intro k
            rw [← exists_lookup_iff, ← exists_lookup_iff, ← Option.isSome_iff_exists,
              ← Option.isSome_iff_exists, ← Option.isSome_map, hlookup, Option.isSome_map]
          have hvalid : ∀ k ∈ members.map Prod.fst, Utf8.Valid k := by
            rw [List.forall_mem_map]
            exact fun m hm ↦ (hmembers m hm).1
          rw [arrange_obj, arrange_obj, ← hcongr _ _ hvalid hkeys]
          refine congrArg obj (List.map_congr_left fun k hk ↦ ?_)
          obtain ⟨u, hu⟩ := mem_of_mem_sort hsort hk
          obtain ⟨u', hu'⟩ := exists_lookup_iff.mpr (hkeys.mem_iff.mp ((hsort _).mem_iff.mp hk))
          have htree := hlookup k
          rw [hu, hu'] at htree
          have hmem := mem_of_lookup hu
          have hmem' := mem_of_lookup hu'
          rw [hu, hu', Option.map_some, Option.map_some,
            ih _ hmem (hmembers _ hmem).2 (hmembers' _ hmem').2 (Option.some.inj htree)]
      | _ =>
          rw [tree_obj] at h
          cases h

end Arrange

theorem depth_le_of_tree {t t' : Json α} (ht' : t'.wellFormed = true) (h : t.tree = t'.tree)
    {n : ℕ} (hn : t.depth ≤ n) : t'.depth ≤ n := by
  induction t' generalizing t n with
  | null => exact Nat.zero_le _
  | bool b => exact Nat.zero_le _
  | atom a => exact Nat.zero_le _
  | str s => exact Nat.zero_le _
  | arr items' ih =>
      rw [tree_arr] at h
      cases t with
      | arr items =>
          cases n with
          | zero => exact absurd hn (Nat.not_le.mpr (depth_arr_pos items))
          | succ n =>
              rw [depth_arr_le] at hn ⊢
              rw [tree_arr] at h
              intro u hu
              have hmem : u.tree ∈ items.map tree :=
                JsonTree.arr.inj h ▸ List.mem_map_of_mem hu
              obtain ⟨v, hv, htree⟩ := List.mem_map.mp hmem
              exact ih u hu (wellFormed_arr.mp ht' u hu) htree (hn v hv)
      | obj members =>
          rw [tree_obj] at h
          cases h
      | _ => nomatch h
  | obj members' ih =>
      rw [tree_obj] at h
      cases t with
      | obj members =>
          cases n with
          | zero => exact absurd hn (Nat.not_le.mpr (depth_obj_pos members))
          | succ n =>
              obtain ⟨hnodup, hmembers⟩ := wellFormed_obj.mp ht'
              rw [depth_obj_le] at hn ⊢
              rw [tree_obj] at h
              intro m hm
              have hlookup := congrFun (JsonTree.obj.inj h) m.1
              rw [lookup_of_mem hnodup hm, Option.map_some, Option.map_eq_some_iff] at hlookup
              obtain ⟨v, hv, htree⟩ := hlookup
              exact ih m hm (hmembers m hm).2 htree (hn _ (mem_of_lookup hv))
      | arr items =>
          rw [tree_arr] at h
          cases h
      | _ => nomatch h

end Json

end Trust.Lib
