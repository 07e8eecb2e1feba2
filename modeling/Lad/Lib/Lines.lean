import Mathlib.Data.List.Basic

/-!
# Lines of a byte stream

A stream cut at a separator into pieces joined back by `[sep].intercalate`: appending to the last
piece appends to the stream, and a separator starts an empty piece.
-/

namespace List

variable {α : Type*}

/-- What is appended to the joined pieces goes to the last piece. -/
theorem intercalate_append_last (sep : List α) (a b : List α) :
    ∀ l : List (List α), sep.intercalate (l ++ [a]) ++ b = sep.intercalate (l ++ [a ++ b])
  | [] => by simp
  | [x] => by simp
  | x :: y :: l => by
    have ih := intercalate_append_last sep a b (y :: l)
    simp only [cons_append, intercalate_cons_cons, append_assoc] at ih ⊢
    rw [ih]

/-- One more piece, after a separator. -/
theorem intercalate_concat (sep b : List α) :
    ∀ l : List (List α), l ≠ [] → sep.intercalate (l ++ [b]) = sep.intercalate l ++ sep ++ b
  | [], h => absurd rfl h
  | [x], _ => by simp
  | x :: y :: l, _ => by
    have ih := intercalate_concat sep b (y :: l) (cons_ne_nil y l)
    simp only [cons_append, intercalate_cons_cons, append_assoc] at ih ⊢
    rw [ih]

/-- A separator after the joined pieces starts a new, empty piece. -/
theorem intercalate_append_sep (sep : List α) (a : List α) (l : List (List α)) :
    sep.intercalate (l ++ [a]) ++ sep = sep.intercalate (l ++ [a, []]) := by
  have h := intercalate_concat sep [] (l ++ [a]) (by simp)
  simpa using h.symm

/-- Pieces none of which is empty join to nothing only when there is none. -/
theorem intercalate_eq_nil_iff (sep : List α) {l : List (List α)} (hl : ∀ x ∈ l, x ≠ []) :
    sep.intercalate l = [] ↔ l = [] := by
  cases l with
  | nil => simp
  | cons x xs =>
    have hx := hl x mem_cons_self
    cases xs with
    | nil => simpa using hx
    | cons y ys => simp [intercalate_cons_cons, hx]

variable [BEq α] [LawfulBEq α]

/-- The first `a` in a list: the piece before it has no `a`. -/
theorem idxOf?_eq_some_split {a : α} :
    ∀ {l : List α} {i : Nat}, l.idxOf? a = some i →
      l = l.take i ++ a :: l.drop (i + 1) ∧ a ∉ l.take i
  | [], _, h => by simp at h
  | x :: l, i, h => by
    rw [idxOf?_cons] at h
    by_cases hx : x = a
    · subst hx
      simp only [beq_self_eq_true, if_true, Option.some.injEq] at h
      subst h
      simp
    · simp only [beq_iff_eq, hx, if_false, Option.map_eq_some_iff] at h
      obtain ⟨j, hj, rfl⟩ := h
      obtain ⟨hsplit, hnot⟩ := idxOf?_eq_some_split hj
      refine ⟨?_, ?_⟩
      · simp only [take_succ_cons, drop_succ_cons, cons_append]
        exact congrArg (x :: ·) hsplit
      · simp only [take_succ_cons, mem_cons, not_or]
        exact ⟨Ne.symm hx, hnot⟩

end List
