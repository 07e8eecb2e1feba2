import Lad.Field

/-!
# Sweetening the arguments of the sugared logger

`sweetenFields` reads its arguments left to right with a stride each element's dynamic type
decides: a field, an error, a key and its value, or a key left without one. `Consumes` states
that reading as a grammar, and what the loop returns and reports is read off its items
(`sweetenFields_spec`).
-/

namespace Lad

namespace lad

/-- An element of the arguments, by the first of the tests of `sweetenFields` it passes: a
`Field`, an `error`, a `string`, or any other value. -/
inductive SugarArg (α : Type)
  | field (f : Field)
  | error (e : GoError)
  | string (s : List UInt8)
  | other (v : α)

/-- `invalidPair`: a key that is not a string, with its position and its value. -/
structure invalidPair (α : Type) where
  position : Nat
  key : SugarArg α
  value : SugarArg α

/-- What `sweetenFields` logs through the unsugared logger: `_multipleErrMsg` with an `Error`
field, `_oddNumberErrMsg` with `Any("ignored", key)`, and `_nonStringKeyErrMsg` with the array
of the invalid pairs. -/
inductive SugarReport (α : Type)
  | multipleErrors (f : Field)
  | oddNumber (f : Field)
  | nonStringKeys (invalid : List (invalidPair α))

/-- The variables of the loop of `sweetenFields`, with the calls it made on the logger. -/
structure SweetenState (α : Type) where
  fields : List Field
  invalid : List (invalidPair α)
  seenError : Bool
  reports : List (SugarReport α)

variable {α : Type} (Any : List UInt8 → SugarArg α → Field)

/-- The loop of `sweetenFields`, at position `i`, on the arguments left. -/
def sweetenLoop (i : Nat) : List (SugarArg α) → SweetenState α → SweetenState α
  | [], st => st
  | .field f :: rest, st => sweetenLoop (i + 1) rest { st with fields := st.fields ++ [f] }
  | .error e :: rest, st =>
    if !st.seenError then
      sweetenLoop (i + 1) rest { st with seenError := true, fields := st.fields ++ [Error e] }
    else sweetenLoop (i + 1) rest { st with reports := st.reports ++ [.multipleErrors (Error e)] }
  | [key], st => { st with reports := st.reports ++ [.oddNumber (Any (ascii "ignored") key)] }
  | key :: val :: rest, st =>
    match key with
    | .string keyStr =>
      sweetenLoop (i + 2) rest { st with fields := st.fields ++ [Any keyStr val] }
    | _ => sweetenLoop (i + 2) rest { st with invalid := st.invalid ++ [⟨i, key, val⟩] }

/-- `SugaredLogger.sweetenFields(args)`: the fields, and the calls made on the logger. -/
def sweetenFields (args : List (SugarArg α)) : List Field × List (SugarReport α) :=
  if args = [] then ([], [])
  else
    let st := sweetenLoop Any 0 args ⟨[], [], false, []⟩
    if st.invalid ≠ [] then (st.fields, st.reports ++ [.nonStringKeys st.invalid])
    else (st.fields, st.reports)

/-! ### The reading of the arguments -/

/-- An element that is neither a `Field` nor an `error`, which is read as a key. -/
def SugarArg.IsKey : SugarArg α → Prop
  | .field _ => False
  | .error _ => False
  | _ => True

/-- How an element is consumed, at its position: kept as a field, taken as an error, as the key
of a pair with the element after it, or as a key without a value. -/
inductive Item (α : Type)
  | field (i : Nat) (f : Field)
  | error (i : Nat) (e : GoError)
  | pair (i : Nat) (key val : SugarArg α)
  | dangling (i : Nat) (key : SugarArg α)

/-- The position of an item. -/
def Item.pos : Item α → Nat
  | .field i _ | .error i _ | .pair i _ _ | .dangling i _ => i

/-- The elements an item consumes. -/
def Item.args : Item α → List (SugarArg α)
  | .field _ f => [.field f]
  | .error _ e => [.error e]
  | .pair _ key val => [key, val]
  | .dangling _ key => [key]

/-- The reading of the arguments from position `i`: a key is never a field or an error, and a
key without a value is the last element. -/
inductive Consumes : Nat → List (SugarArg α) → List (Item α) → Prop
  | nil {i : Nat} : Consumes i [] []
  | field {i : Nat} {f : Field} {rest items} :
      Consumes (i + 1) rest items → Consumes i (.field f :: rest) (.field i f :: items)
  | error {i : Nat} {e : GoError} {rest items} :
      Consumes (i + 1) rest items → Consumes i (.error e :: rest) (.error i e :: items)
  | pair {i : Nat} {key val : SugarArg α} {rest items} : key.IsKey →
      Consumes (i + 2) rest items → Consumes i (key :: val :: rest) (.pair i key val :: items)
  | dangling {i : Nat} {key : SugarArg α} : key.IsKey → Consumes i [key] [.dangling i key]

/-- Each element is consumed once, in order. -/
theorem Consumes.flatMap_args {i : Nat} {args : List (SugarArg α)} {items : List (Item α)}
    (h : Consumes i args items) : items.flatMap Item.args = args := by
  induction h with
  | nil => rfl
  | field _ ih => simp [Item.args, ih]
  | error _ ih => simp [Item.args, ih]
  | pair _ _ ih => simp [Item.args, ih]
  | dangling _ => simp [Item.args]

/-- Positions only grow along the reading. -/
theorem Consumes.le_pos {i : Nat} {args : List (SugarArg α)} {items : List (Item α)}
    (h : Consumes i args items) : ∀ it ∈ items, i ≤ it.pos := by
  induction h with
  | nil => simp
  | field _ ih | error _ ih | pair _ _ ih =>
    intro it hit
    rcases List.mem_cons.1 hit with rfl | hit
    · exact Nat.le_refl _
    · have := ih it hit
      omega
  | dangling _ => simp [Item.pos]

/-- Each item sits at its position in the arguments. -/
theorem Consumes.drop_pos {i : Nat} {args : List (SugarArg α)} {items : List (Item α)}
    (h : Consumes i args items) :
    ∀ it ∈ items, (args.drop (it.pos - i)).take it.args.length = it.args := by
  induction h with
  | nil => simp
  | @field i _ rest items hc ih | @error i _ rest items hc ih =>
    intro it hit
    rcases List.mem_cons.1 hit with rfl | hit
    · simp [Item.pos, Item.args]
    · have hle := hc.le_pos it hit
      have hk : it.pos - i = (it.pos - (i + 1)) + 1 := by omega
      rw [hk, List.drop_succ_cons]
      exact ih it hit
  | @pair i key val rest items _ hc ih =>
    intro it hit
    rcases List.mem_cons.1 hit with rfl | hit
    · simp [Item.pos, Item.args]
    · have hle := hc.le_pos it hit
      have hk : it.pos - i = (it.pos - (i + 2)) + 1 + 1 := by omega
      rw [hk, List.drop_succ_cons, List.drop_succ_cons]
      exact ih it hit
  | dangling _ => simp [Item.pos, Item.args]

/-! ### What the loop does with each item -/

/-- The position of the first error item. -/
def firstError : List (Item α) → Option Nat
  | [] => none
  | .field _ _ :: items => firstError items
  | .error i _ :: _ => some i
  | .pair _ _ _ :: items => firstError items
  | .dangling _ _ :: items => firstError items

/-- The error position kept as a field, from a loop that has or has not seen an error. -/
def firstFrom (seen : Bool) (items : List (Item α)) : Option Nat :=
  if seen then none else firstError items

/-- The field an item adds, given the position of the error kept as a field. -/
def Item.output (first : Option Nat) : Item α → Option Field
  | .field _ f => some f
  | .error i e => if first = some i then some (Error e) else none
  | .pair _ key val =>
    match key with
    | .string keyStr => some (Any keyStr val)
    | _ => none
  | .dangling _ _ => none

/-- What an item reports, given the position of the error kept as a field. -/
def Item.report (first : Option Nat) : Item α → Option (SugarReport α)
  | .field _ _ => none
  | .error i e => if first = some i then none else some (.multipleErrors (Error e))
  | .pair _ _ _ => none
  | .dangling _ key => some (.oddNumber (Any (ascii "ignored") key))

/-- The invalid pair an item is: a pair whose key is not a string. -/
def Item.invalid : Item α → Option (invalidPair α)
  | .field _ _ => none
  | .error _ _ => none
  | .pair i key val =>
    match key with
    | .string _ => none
    | _ => some ⟨i, key, val⟩
  | .dangling _ _ => none

/-- An error after position `p` is not the one at `p`. -/
theorem filterMap_output_of_lt {p : Nat} {items : List (Item α)} (h : ∀ it ∈ items, p < it.pos) :
    items.filterMap (Item.output Any (some p)) = items.filterMap (Item.output Any none) := by
  apply List.filterMap_congr
  intro it hit
  cases it with
  | error j e =>
    have hne : some p ≠ some j := fun hpj => by
      have := h _ hit
      simp only [Item.pos, Option.some.injEq] at this hpj
      omega
    simp [Item.output, hne]
  | _ => rfl

theorem filterMap_report_of_lt {p : Nat} {items : List (Item α)} (h : ∀ it ∈ items, p < it.pos) :
    items.filterMap (Item.report Any (some p)) = items.filterMap (Item.report Any none) := by
  apply List.filterMap_congr
  intro it hit
  cases it with
  | error j e =>
    have hne : some p ≠ some j := fun hpj => by
      have := h _ hit
      simp only [Item.pos, Option.some.injEq] at this hpj
      omega
    simp [Item.report, hne]
  | _ => rfl

/-- A key is an element that is neither a field nor an error. -/
theorem SugarArg.isKey_of {key : SugarArg α} (hf : ∀ f, key = .field f → False)
    (he : ∀ e, key = .error e → False) : key.IsKey := by
  cases key with
  | field f => exact hf f rfl
  | error e => exact he e rfl
  | string _ => trivial
  | other _ => trivial

/-- The loop reads its arguments as `Consumes` does, and each item adds its field, its report and
its invalid pair, in order. -/
theorem sweetenLoop_spec (i : Nat) (args : List (SugarArg α)) (st : SweetenState α) :
    ∃ items, Consumes i args items ∧
      sweetenLoop Any i args st =
        { fields := st.fields ++ items.filterMap (Item.output Any (firstFrom st.seenError items)),
          invalid := st.invalid ++ items.filterMap Item.invalid,
          seenError := st.seenError || (firstError items).isSome,
          reports :=
            st.reports ++ items.filterMap (Item.report Any (firstFrom st.seenError items)) } := by
  fun_induction sweetenLoop Any i args st with
  | case1 i st => exact ⟨[], .nil, by simp [firstError]⟩
  | case2 i f rest st ih =>
    obtain ⟨items, hc, heq⟩ := ih
    refine ⟨.field i f :: items, .field hc, ?_⟩
    rw [heq]
    simp [firstFrom, firstError, Item.output, Item.report, Item.invalid, List.filterMap_cons]
  | case3 i e rest st hseen ih =>
    -- the first error: kept as a field, so none after it is
    obtain ⟨items, hc, heq⟩ := ih
    have hseen : st.seenError = false := by simpa using hseen
    have hlt : ∀ it ∈ items, i < it.pos := fun it hit => hc.le_pos it hit
    refine ⟨.error i e :: items, .error hc, ?_⟩
    rw [heq]
    simp [firstFrom, firstError, hseen, Item.output, Item.report, Item.invalid, List.filterMap_cons,
      filterMap_output_of_lt Any hlt, filterMap_report_of_lt Any hlt]
  | case4 i e rest st hseen ih =>
    obtain ⟨items, hc, heq⟩ := ih
    have hseen : st.seenError = true := by simpa using hseen
    refine ⟨.error i e :: items, .error hc, ?_⟩
    rw [heq]
    simp [firstFrom, hseen, Item.output, Item.report, Item.invalid, List.filterMap_cons]
  | case5 i key st hf he =>
    refine ⟨[.dangling i key], .dangling (SugarArg.isKey_of hf he), ?_⟩
    simp [firstFrom, firstError, Item.output, Item.report, Item.invalid, List.filterMap_cons]
  | case6 i val rest st keyStr _ _ ih =>
    obtain ⟨items, hc, heq⟩ := ih
    refine ⟨.pair i (.string keyStr) val :: items, .pair (show (SugarArg.string keyStr : SugarArg α).IsKey from trivial) hc, ?_⟩
    rw [heq]
    simp [firstFrom, firstError, Item.output, Item.report, Item.invalid, List.filterMap_cons]
  | case7 i key val rest st hf he hs ih =>
    obtain ⟨items, hc, heq⟩ := ih
    refine ⟨.pair i key val :: items, .pair (SugarArg.isKey_of hf he) hc, ?_⟩
    rw [heq]
    cases key with
    | field f => exact (hf f rfl).elim
    | error e => exact (he e rfl).elim
    | string keyStr => exact (hs keyStr rfl).elim
    | other v => simp [firstFrom, firstError, Item.output, Item.report, Item.invalid, List.filterMap_cons]

/-- `sweetenFields` reads its arguments in the one way `Consumes` allows: every element once, in
order, at its position. It returns the items' fields in order (each `Field`, the first error as
`Error`, and `Any(key, value)` for a string key), reports every later error and a key left
without a value, in order, and then, once, the pairs whose key is not a string, at their
positions. -/
theorem sweetenFields_spec (args : List (SugarArg α)) :
    ∃ items, Consumes 0 args items ∧ items.flatMap Item.args = args ∧
      (∀ it ∈ items, (args.drop it.pos).take it.args.length = it.args) ∧
      (sweetenFields Any args).1 = items.filterMap (Item.output Any (firstError items)) ∧
      (sweetenFields Any args).2 = items.filterMap (Item.report Any (firstError items)) ++
        (if items.filterMap Item.invalid = [] then []
          else [.nonStringKeys (items.filterMap Item.invalid)]) := by
  obtain ⟨items, hc, heq⟩ := sweetenLoop_spec Any 0 args ⟨[], [], false, []⟩
  have hpos : ∀ it ∈ items, (args.drop it.pos).take it.args.length = it.args := by
    intro it hit
    simpa using hc.drop_pos it hit
  refine ⟨items, hc, hc.flatMap_args, hpos, ?_⟩
  by_cases hargs : args = []
  · -- no arguments: nothing is read
    subst hargs
    cases hc
    simp [sweetenFields]
  · -- the report of invalid pairs is made or not as the loop collected some
    by_cases hinv : items.filterMap Item.invalid = [] <;>
      simp [sweetenFields, hargs, heq, firstFrom, hinv]

end lad

end Lad
