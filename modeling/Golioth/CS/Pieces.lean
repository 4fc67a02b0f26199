/-
# Consecutive pieces of a list

A list that arrives in pieces, each with the offset it claims. The pieces are
consecutive if each starts where the one before it ended and is what the list has
there, so that joining them gives back a beginning of the list.
-/
import Mathlib.Data.List.Basic

namespace CS

namespace Pieces

variable {α : Type*} {whole data : List α} {start off : ℕ} {pieces rest : List (ℕ × List α)}

/-- The pieces follow one another through `whole` from the offset `start` on. -/
def Consecutive (whole : List α) : (start : ℕ) → List (ℕ × List α) → Prop
  | _, [] => True
  | start, piece :: pieces =>
    piece.1 = start ∧ piece.2 <+: whole.drop start ∧
      Consecutive whole (start + piece.2.length) pieces

/-- What the pieces amount to. -/
def join (pieces : List (ℕ × List α)) : List α := pieces.flatMap Prod.snd

@[simp] theorem join_nil : join ([] : List (ℕ × List α)) = [] := rfl

@[simp] theorem join_cons (piece : ℕ × List α) (pieces : List (ℕ × List α)) :
    join (piece :: pieces) = piece.2 ++ join pieces := rfl

@[simp] theorem join_append (pieces rest : List (ℕ × List α)) :
    join (pieces ++ rest) = join pieces ++ join rest := List.flatMap_append

theorem consecutive_append :
    Consecutive whole start (pieces ++ rest) ↔
      Consecutive whole start pieces ∧
        Consecutive whole (start + (join pieces).length) rest := by
  induction pieces generalizing start with
  | nil => simp [Consecutive]
  | cons piece pieces ih =>
    simp only [List.cons_append, Consecutive, ih, join_cons, List.length_append, Nat.add_assoc,
      and_assoc]

/-- One more piece, which starts where the last one ended. -/
theorem Consecutive.snoc (h : Consecutive whole start pieces)
    (hdata : data <+: whole.drop (start + (join pieces).length)) :
    Consecutive whole start (pieces ++ [(start + (join pieces).length, data)]) :=
  consecutive_append.mpr ⟨h, rfl, hdata, trivial⟩

/-- Consecutive pieces amount to a part of the list. -/
theorem Consecutive.join_eq (h : Consecutive whole start pieces) :
    join pieces = (whole.drop start).take (join pieces).length := by
  induction pieces generalizing start with
  | nil => rfl
  | cons piece pieces ih =>
    obtain ⟨-, hstart, htail⟩ := h
    have hpiece := List.prefix_iff_eq_take.mp hstart
    have hrest := ih htail
    rw [join_cons, List.length_append, List.take_add, List.drop_drop, ← hpiece, ← hrest]

theorem Consecutive.length_le (h : Consecutive whole 0 pieces) :
    (join pieces).length ≤ whole.length := by
  have hlength := congrArg List.length h.join_eq
  rw [List.drop_zero, List.length_take] at hlength
  omega

/-- A piece that reaches the end completes the list. -/
theorem Consecutive.join_of_last (h : Consecutive whole 0 pieces)
    (hdata : data = whole.drop (join pieces).length) : join pieces ++ data = whole := by
  have hjoin := h.join_eq
  rw [List.drop_zero] at hjoin
  calc join pieces ++ data
      = whole.take (join pieces).length ++ whole.drop (join pieces).length := by
        rw [← hjoin, hdata]
    _ = whole := List.take_append_drop _ _

/-! ## Pieces of any list -/

/-- Each piece starts where the one before it ended, whatever list they are of. -/
def Adjoining : (start : ℕ) → List (ℕ × List α) → Prop
  | _, [] => True
  | start, piece :: pieces => piece.1 = start ∧ Adjoining (start + piece.2.length) pieces

/-- Every piece has for its offset the length of the pieces before it. -/
theorem adjoining_iff :
    Adjoining start pieces ↔ ∀ before piece after, pieces = before ++ piece :: after →
      piece.1 = start + (join before).length := by
  induction pieces generalizing start with
  | nil => simp [Adjoining]
  | cons first pieces ih =>
    constructor
    · rintro ⟨hfirst, hrest⟩ before piece after hsplit
      cases before with
      | nil =>
        obtain ⟨rfl, -⟩ := List.cons.inj hsplit
        exact hfirst
      | cons first' before =>
        obtain ⟨rfl, hsplit'⟩ := List.cons.inj hsplit
        rw [ih.mp hrest before piece after hsplit', join_cons, List.length_append, Nat.add_assoc]
    · intro h
      refine ⟨h [] first pieces rfl, ih.mpr fun before piece after hsplit => ?_⟩
      rw [h (first :: before) piece after (congrArg (first :: ·) hsplit), join_cons,
        List.length_append, Nat.add_assoc]

theorem adjoining_snoc :
    Adjoining start (pieces ++ [(off, data)]) ↔
      Adjoining start pieces ∧ off = start + (join pieces).length := by
  induction pieces generalizing start with
  | nil => simp [Adjoining]
  | cons piece pieces ih =>
    rw [List.cons_append, Adjoining, Adjoining, ih, join_cons, List.length_append, Nat.add_assoc,
      and_assoc]

/-! ## Pieces written to a buffer -/

/-- What a buffer holds at an index after the pieces have been written to it one after the
other, each at its offset. -/
def stored (pieces : List (ℕ × List α)) (i : ℕ) : Option α :=
  pieces.foldl (fun value piece =>
    if piece.1 ≤ i ∧ i < piece.1 + piece.2.length then piece.2[i - piece.1]? else value) none

/-- A buffer that consecutive pieces have been written to holds what they amount to. -/
theorem Consecutive.stored_eq (h : Consecutive whole 0 pieces) {i : ℕ}
    (hi : i < (join pieces).length) : stored pieces i = whole[i]? := by
  have hfold : ∀ {start : ℕ} {pieces : List (ℕ × List α)}, Consecutive whole start pieces →
      ∀ value, pieces.foldl (fun value piece =>
        if piece.1 ≤ i ∧ i < piece.1 + piece.2.length then piece.2[i - piece.1]? else value) value =
          if start ≤ i ∧ i < start + (join pieces).length then whole[i]? else value := by
    intro start pieces
    induction pieces generalizing start with
    | nil =>
      intro _ value
      rw [List.foldl_nil, if_neg (by simp)]
    | cons piece pieces ih =>
      rintro ⟨rfl, ⟨rest, hstart⟩, htail⟩ value
      rw [List.foldl_cons, ih htail, join_cons, List.length_append]
      by_cases hpiece : piece.1 ≤ i ∧ i < piece.1 + piece.2.length
      · have hread : piece.2[i - piece.1]? = whole[i]? := by
          have hdrop := congrArg (·[i - piece.1]?) hstart
          simp only [List.getElem?_drop, Nat.add_sub_cancel' hpiece.1] at hdrop
          rw [← hdrop, List.getElem?_append_left (by omega)]
        rw [if_pos hpiece, if_neg (by omega), if_pos (by omega), hread]
      · rw [if_neg hpiece]
        refine if_congr ?_ rfl rfl
        omega
  rw [stored, hfold h, if_pos ⟨Nat.zero_le i, by rwa [Nat.zero_add]⟩]

end Pieces

end CS
