import Mathlib.Data.List.Basic

/-!
# Scoped replacement

A current value and, latest first, the values saved by replacements not yet undone; `push`
saves and replaces, `pop` restores. A well-nested program (`Nested`) comes back to the state it
started from (`run_nested`).
-/

namespace Scope

/-- A step of a program over a scoped value. -/
inductive Op (α : Type*) where
  | push (a : α)
  | pop

variable {α : Type*}

/-- The current value and the values saved by replacements not yet undone, latest first. -/
structure Scoped (α : Type*) where
  current : α
  saved : List α

namespace Scoped

/-- One step; `none` for a `pop` with nothing saved. -/
def step : Scoped α → Op α → Option (Scoped α)
  | ⟨c, st⟩, .push a => some ⟨a, c :: st⟩
  | ⟨_, s :: st⟩, .pop => some ⟨s, st⟩
  | ⟨_, []⟩, .pop => none

/-- A program, step by step, stopping at the first stuck step. -/
def run (s : Scoped α) (ops : List (Op α)) : Option (Scoped α) := ops.foldlM step s

@[simp] theorem step_push (c a : α) (st : List α) : step ⟨c, st⟩ (.push a) = some ⟨a, c :: st⟩ :=
  rfl

@[simp] theorem step_pop (c s : α) (st : List α) : step ⟨c, s :: st⟩ .pop = some ⟨s, st⟩ := rfl

@[simp] theorem run_nil (s : Scoped α) : run s [] = some s := rfl

theorem run_cons (s : Scoped α) (op : Op α) (ops : List (Op α)) :
    run s (op :: ops) = (step s op).bind fun s' => run s' ops := rfl

theorem run_append (s : Scoped α) (p q : List (Op α)) :
    run s (p ++ q) = (run s p).bind fun s' => run s' q := by
  simp only [run, List.foldlM_append]
  rfl

end Scoped

/-- A program in which every `push` is undone by a later `pop`, innermost first. -/
inductive Nested : List (Op α) → Prop
  | nil : Nested []
  | scope (a : α) {p q : List (Op α)} : Nested p → Nested q → Nested (.push a :: p ++ .pop :: q)

/-- A well-nested program comes back to the state it started from. -/
theorem run_nested {ops : List (Op α)} (h : Nested ops) : ∀ s : Scoped α, s.run ops = some s := by
  induction h with
  | nil => exact fun s => rfl
  | scope a _ _ ihp ihq =>
    rintro ⟨c, st⟩
    -- inside the scope `a` is current and `c` saved; the body leaves it so, and `pop` restores
    rw [List.cons_append, Scoped.run_cons, Scoped.step_push, Option.bind_some,
      Scoped.run_append, ihp, Option.bind_some, Scoped.run_cons, Scoped.step_pop,
      Option.bind_some, ihq]

end Scope
