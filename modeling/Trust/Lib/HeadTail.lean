import Mathlib.Data.List.Basic

/-!
# Head and tail layouts

A record of parts is laid out as one word per part, followed by the payloads of
the indirect parts in order.  The word of an indirect part gives the offset of
its payload from the start of the record.  Every part can then be found from
its position: its word in the head, its payload at the offset in that word.
-/

namespace Trust.Lib.HeadTail

variable {α : Type*}

/-- A part that is its word, or a payload that the word points to. -/
inductive Part (α : Type*) where
  | inline (word : List α)
  | indirect (payload : List α)

namespace Part

def payload : Part α → List α
  | inline _ => []
  | indirect payload => payload

@[simp] theorem payload_inline (word : List α) : (inline word).payload = [] := rfl

@[simp] theorem payload_indirect (p : List α) : (indirect p).payload = p := rfl

def word (offset : ℕ → List α) (off : ℕ) : Part α → List α
  | inline word => word
  | indirect _ => offset off

end Part

variable (offset : ℕ → List α)

def heads : ℕ → List (Part α) → List α
  | _, [] => []
  | off, p :: ps => p.word offset off ++ heads (off + p.payload.length) ps

def tails (ps : List (Part α)) : List α := ps.flatMap Part.payload

def layout (w : ℕ) (ps : List (Part α)) : List α := heads offset (ps.length * w) ps ++ tails ps

theorem heads_append (off : ℕ) (xs ys : List (Part α)) :
    heads offset off (xs ++ ys) =
      heads offset off xs ++ heads offset (off + (tails xs).length) ys := by
  induction xs generalizing off with
  | nil => rfl
  | cons x xs ih =>
      rw [List.cons_append, heads, ih, heads, List.append_assoc]
      simp [tails, Nat.add_assoc]

@[simp] theorem tails_append (xs ys : List (Part α)) : tails (xs ++ ys) = tails xs ++ tails ys :=
  List.flatMap_append

@[simp] theorem tails_cons (p : Part α) (ps : List (Part α)) :
    tails (p :: ps) = p.payload ++ tails ps := rfl

variable {offset} {w : ℕ}

/-- Every word of the record has `w` elements. -/
def Framed (offset : ℕ → List α) (w : ℕ) (ps : List (Part α)) : Prop :=
  ∀ p ∈ ps, ∀ off, (p.word offset off).length = w

theorem Framed.left {xs ys : List (Part α)} (h : Framed offset w (xs ++ ys)) :
    Framed offset w xs := fun p hp ↦ h p (List.mem_append_left _ hp)

theorem length_heads {ps : List (Part α)} (h : Framed offset w ps) (off : ℕ) :
    (heads offset off ps).length = ps.length * w := by
  induction ps generalizing off with
  | nil => simp [heads]
  | cons p ps ih =>
      rw [Framed, List.forall_mem_cons] at h
      rw [heads, List.length_append, h.1, ih h.2, List.length_cons, Nat.succ_mul, Nat.add_comm]

theorem length_layout {ps : List (Part α)} (h : Framed offset w ps) :
    (layout offset w ps).length = ps.length * w + (tails ps).length := by
  rw [layout, List.length_append, length_heads h]

theorem word_at {xs ys : List (Part α)} {p : Part α} (h : Framed offset w (xs ++ p :: ys)) :
    ((layout offset w (xs ++ p :: ys)).drop (xs.length * w)).take w =
      p.word offset ((xs ++ p :: ys).length * w + (tails xs).length) := by
  have hword := h p (by simp) ((xs ++ p :: ys).length * w + (tails xs).length)
  rw [layout, heads_append, List.append_assoc, List.drop_left' (length_heads h.left _), heads,
    List.append_assoc, List.take_left' hword]

theorem payload_at {xs ys : List (Part α)} {p : Part α} (h : Framed offset w (xs ++ p :: ys)) :
    (layout offset w (xs ++ p :: ys)).drop ((xs ++ p :: ys).length * w + (tails xs).length) =
      p.payload ++ tails ys := by
  rw [layout, ← List.drop_drop, List.drop_left' (length_heads h _), tails_append,
    List.drop_left' rfl, tails_cons]

end Trust.Lib.HeadTail
