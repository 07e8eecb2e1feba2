import Mathlib.Order.Basic
import Mathlib.Order.Lattice

/-!
# The first element a test accepts, in a sorted list

In a list sorted by a key, with a default above every element, `(l.find? p).getD d` is the least
element `p` accepts, and a scan for `p ∨ q` finds the lesser of the two scans.
-/

namespace List

variable {α β : Type*} [LinearOrder β] (k : α → β)

/-- A bound below every element and the default is below what a scan finds. -/
theorem le_key_find?_getD {l : List α} {d : α} {b : β} (hl : ∀ x ∈ l, b ≤ k x) (hd : b ≤ k d)
    (p : α → Bool) : b ≤ k ((l.find? p).getD d) := by
  cases h : l.find? p with
  | none => exact hd
  | some x => exact hl x (mem_of_find?_eq_some h)

/-- In a list sorted by `k`, below the default, a scan for `p ∨ q` finds the lesser of the two
scans. -/
theorem key_find?_or_getD {l : List α} (hs : l.Pairwise fun a b => k a < k b) {d : α}
    (hd : ∀ x ∈ l, k x < k d) (p q : α → Bool) :
    k ((l.find? fun x => p x || q x).getD d) =
      min (k ((l.find? p).getD d)) (k ((l.find? q).getD d)) := by
  induction l with
  | nil => simp
  | cons x xs ih =>
    rw [pairwise_cons] at hs
    have ih' := ih hs.2 (fun y hy => hd y (mem_cons_of_mem _ hy))
    -- the head is below whatever a scan of the tail finds
    have hb : ∀ r : α → Bool, k x ≤ k ((xs.find? r).getD d) := fun r =>
      le_key_find?_getD k (fun y hy => (hs.1 y hy).le) (hd x mem_cons_self).le r
    cases hp : p x <;> cases hq : q x <;> simp [hp, hq, ih', hb]

/-- Scanned from the top, a list sorted by `k` gives the greatest element that `p` accepts. -/
theorem find?_reverse_eq_some {l : List α} (hs : l.Pairwise fun a b => k a < k b)
    {p : α → Bool} {x : α} (h : l.reverse.find? p = some x) :
    p x ∧ x ∈ l ∧ ∀ y ∈ l, k x < k y → p y = false := by
  obtain ⟨hx, as, bs, hl, has⟩ := find?_eq_some_iff_append.mp h
  have hmem : x ∈ l := mem_reverse.mp (hl ▸ mem_append_right _ mem_cons_self)
  refine ⟨hx, hmem, fun y hy hxy => ?_⟩
  -- reversed, the list is sorted downwards, so what lies above `x` comes before it
  have hs' : (as ++ x :: bs).Pairwise fun a b => k b < k a := hl ▸ pairwise_reverse.mpr hs
  have hy' : y ∈ as ++ x :: bs := hl ▸ mem_reverse.mpr hy
  rcases mem_append.mp hy' with hya | hyx
  · simpa using has y hya
  · rcases mem_cons.mp hyx with rfl | hyb
    · exact absurd hxy (lt_irrefl _)
    · have hyx : k y < k x := (pairwise_cons.mp (pairwise_append.mp hs').2.1).1 y hyb
      exact absurd hxy (not_lt.mpr hyx.le)

end List
