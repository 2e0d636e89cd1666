import Mathlib.Data.List.Basic
import Trust.Lib.Interleaving
import Trust.Lib.Outcome

/-!
# Conversations

A program that runs against an environment of which nothing is known: every operation
gets some answer.  A conversation is the list of the operations and their answers so far,
and `Reaches` says where it has taken the program.  The rules for `bind`, `map` and
`andThen` split a conversation where one program hands over to the next.
-/

namespace Trust.Lib.Interleaving

variable {Op : Type} {Res : Op → Type} {α β ε : Type}

abbrev Exchange (Op : Type) (Res : Op → Type) : Type := (op : Op) × Res op

/-- The conversation takes the first program to the second. -/
inductive Reaches : Program Op Res α → List (Exchange Op Res) → Program Op Res α → Prop where
  | refl (p : Program Op Res α) : Reaches p [] p
  | perform {op : Op} {k : Res op → Program Op Res α} {r : Res op} {t : List (Exchange Op Res)}
      {q : Program Op Res α} (h : Reaches (k r) t q) : Reaches (.perform op k) (⟨op, r⟩ :: t) q

variable {t : List (Exchange Op Res)}

theorem reaches_done_iff {a : α} {q : Program Op Res α} :
    Reaches (.done a) t q ↔ t = [] ∧ q = .done a := by
  constructor
  · intro h
    cases h
    exact ⟨rfl, rfl⟩
  · rintro ⟨rfl, rfl⟩
    exact .refl _

theorem reaches_perform_iff {op : Op} {k : Res op → Program Op Res α} {q : Program Op Res α} :
    Reaches (.perform op k) t q ↔
      t = [] ∧ q = .perform op k ∨ ∃ r t', t = ⟨op, r⟩ :: t' ∧ Reaches (k r) t' q := by
  constructor
  · intro h
    cases h with
    | refl => exact Or.inl ⟨rfl, rfl⟩
    | perform h => exact Or.inr ⟨_, _, rfl, h⟩
  · rintro (⟨rfl, rfl⟩ | ⟨r, t', rfl, h⟩)
    · exact .refl _
    · exact .perform h

theorem reaches_perform_done_iff {op : Op} {k : Res op → Program Op Res α} {a : α} :
    Reaches (.perform op k) t (.done a) ↔
      ∃ r t', t = ⟨op, r⟩ :: t' ∧ Reaches (k r) t' (.done a) := by
  rw [reaches_perform_iff]
  simp

theorem reaches_map_iff {g : α → β} {p : Program Op Res α} {q : Program Op Res β} :
    Reaches (p.map g) t q ↔ ∃ p', Reaches p t p' ∧ q = p'.map g := by
  induction p generalizing t with
  | done a => simp [Program.map, reaches_done_iff]
  | perform op k ih =>
      rw [Program.map, reaches_perform_iff]
      simp only [ih, reaches_perform_iff]
      constructor
      · rintro (⟨rfl, rfl⟩ | ⟨r, t', rfl, p', hp', rfl⟩)
        · exact ⟨.perform op k, Or.inl ⟨rfl, rfl⟩, rfl⟩
        · exact ⟨p', Or.inr ⟨r, t', rfl, hp'⟩, rfl⟩
      · rintro ⟨p', ⟨rfl, rfl⟩ | ⟨r, t', rfl, hp'⟩, rfl⟩
        · exact Or.inl ⟨rfl, rfl⟩
        · exact Or.inr ⟨r, t', rfl, p', hp', rfl⟩

theorem reaches_map_done_iff {g : α → β} {p : Program Op Res α} {b : β} :
    Reaches (p.map g) t (.done b) ↔ ∃ a, Reaches p t (.done a) ∧ g a = b := by
  rw [reaches_map_iff]
  constructor
  · rintro ⟨p', hp', hq⟩
    obtain ⟨a, rfl, ha⟩ := Program.map_eq_done_iff.mp hq.symm
    exact ⟨a, hp', ha⟩
  · rintro ⟨a, ha, rfl⟩
    exact ⟨.done a, ha, rfl⟩

/-- The first program, and then the one that its value gives. -/
def Program.bind (f : α → Program Op Res β) : Program Op Res α → Program Op Res β
  | .done a => f a
  | .perform op k => .perform op fun r ↦ (k r).bind f

/-- A conversation with two programs, one after the other, is one with the first or one
that goes on with the second. -/
theorem reaches_bind {f : α → Program Op Res β} {p : Program Op Res α} {q : Program Op Res β}
    (h : Reaches (p.bind f) t q) : (∃ p', Reaches p t p') ∨
      ∃ t₁ t₂ a, t = t₁ ++ t₂ ∧ Reaches p t₁ (.done a) ∧ Reaches (f a) t₂ q := by
  induction p generalizing t with
  | done a => exact Or.inr ⟨[], t, a, rfl, .refl _, h⟩
  | perform op k ih =>
      rcases reaches_perform_iff.mp h with ⟨rfl, -⟩ | ⟨r, t', rfl, h'⟩
      · exact Or.inl ⟨_, .refl _⟩
      · rcases ih r h' with ⟨p', hp'⟩ | ⟨t₁, t₂, a, rfl, ha, hq⟩
        · exact Or.inl ⟨p', .perform hp'⟩
        · exact Or.inr ⟨_ :: t₁, t₂, a, rfl, .perform ha, hq⟩

theorem reaches_bind_done_iff {f : α → Program Op Res β} {p : Program Op Res α} {b : β} :
    Reaches (p.bind f) t (.done b) ↔
      ∃ t₁ t₂ a, t = t₁ ++ t₂ ∧ Reaches p t₁ (.done a) ∧ Reaches (f a) t₂ (.done b) := by
  constructor
  · intro h
    induction p generalizing t with
    | done a => exact ⟨[], t, a, rfl, .refl _, h⟩
    | perform op k ih =>
        obtain ⟨r, t', rfl, h'⟩ := reaches_perform_done_iff.mp h
        obtain ⟨t₁, t₂, a, rfl, ha, hb⟩ := ih r h'
        exact ⟨_ :: t₁, t₂, a, rfl, .perform ha, hb⟩
  · rintro ⟨t₁, t₂, a, rfl, ha, hb⟩
    induction p generalizing t₁ with
    | done a' =>
        obtain ⟨rfl, heq⟩ := reaches_done_iff.mp ha
        obtain rfl := Program.done.inj heq
        exact hb
    | perform op k ih =>
        obtain ⟨r, t', rfl, ha'⟩ := reaches_perform_done_iff.mp ha
        exact .perform (ih r _ ha')

/-! ## Programs that may fail -/

/-- Go on with the value; what is no value ends the program. -/
def Program.andThen (p : Program Op Res (Outcome ε α))
    (f : α → Program Op Res (Outcome ε β)) : Program Op Res (Outcome ε β) :=
  p.bind fun
    | .ok a => f a
    | .error e => .done (.error e)
    | .panic => .done .panic
    | .spin => .done .spin

theorem reaches_andThen {p : Program Op Res (Outcome ε α)}
    {f : α → Program Op Res (Outcome ε β)} {q : Program Op Res (Outcome ε β)}
    (h : Reaches (p.andThen f) t q) : (∃ p', Reaches p t p') ∨
      ∃ t₁ t₂ a, t = t₁ ++ t₂ ∧ Reaches p t₁ (.done (.ok a)) ∧ Reaches (f a) t₂ q := by
  rcases reaches_bind h with hp | ⟨t₁, t₂, x, rfl, hx, hq⟩
  · exact Or.inl hp
  · cases x with
    | ok a => exact Or.inr ⟨t₁, t₂, a, rfl, hx, hq⟩
    | error e =>
        obtain ⟨rfl, -⟩ := reaches_done_iff.mp hq
        exact Or.inl ⟨_, (List.append_nil t₁).symm ▸ hx⟩
    | panic =>
        obtain ⟨rfl, -⟩ := reaches_done_iff.mp hq
        exact Or.inl ⟨_, (List.append_nil t₁).symm ▸ hx⟩
    | spin =>
        obtain ⟨rfl, -⟩ := reaches_done_iff.mp hq
        exact Or.inl ⟨_, (List.append_nil t₁).symm ▸ hx⟩

theorem reaches_andThen_ok_iff {p : Program Op Res (Outcome ε α)}
    {f : α → Program Op Res (Outcome ε β)} {b : β} :
    Reaches (p.andThen f) t (.done (.ok b)) ↔
      ∃ t₁ t₂ a, t = t₁ ++ t₂ ∧ Reaches p t₁ (.done (.ok a)) ∧
        Reaches (f a) t₂ (.done (.ok b)) := by
  rw [Program.andThen, reaches_bind_done_iff]
  constructor
  · rintro ⟨t₁, t₂, x, rfl, hx, hb⟩
    cases x with
    | ok a => exact ⟨t₁, t₂, a, rfl, hx, hb⟩
    | error e => simp [reaches_done_iff] at hb
    | panic => simp [reaches_done_iff] at hb
    | spin => simp [reaches_done_iff] at hb
  · rintro ⟨t₁, t₂, a, rfl, ha, hb⟩
    exact ⟨t₁, t₂, .ok a, rfl, ha, hb⟩

end Trust.Lib.Interleaving
