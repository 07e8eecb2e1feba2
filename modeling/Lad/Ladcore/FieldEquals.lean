import Lad.Field

/-!
# `Field.Equals`

`Equals` compares byte slices with `bytes.Equal`, marshalers and errors with `reflect.DeepEqual`,
and every other type with `==` on the whole struct, which panics on an interface of a type that
is not comparable; a `TypedField` carries that type. `Equals` is symmetric (`Equals_comm`) and
does not panic on comparable fields (`Equals_ne_none`), but panics on
`Inline(DictObject(...))` (`Equals_inlineDict`).
-/

namespace Lad

/-- The dynamic type of a value held by an interface, as far as `==` reads it. -/
structure DynType where
  name : List UInt8
  comparable : Bool
  deriving DecidableEq, Repr

/-- A field with the dynamic type of its `Interface`, `none` for a nil interface. -/
structure TypedField where
  field : Field
  ifaceType : Option DynType

section Equals

variable (deepEqual ifaceEq : Iface → Iface → Bool)

/-- `==` on the interfaces of two fields: equal when both are nil, false on different dynamic
types, `ifaceEq` on a comparable type, a panic (`none`) on a type that is not. -/
def interfaceEq (a b : TypedField) : Option Bool :=
  match a.ifaceType, b.ifaceType with
  | none, none => some true
  | some t, some u =>
    if t ≠ u then some false
    else if t.comparable then some (ifaceEq a.field.iface b.field.iface)
    else none
  | _, _ => some false

/-- `f == other` on two `Field` structs: the members in order, up to the first that differs. -/
def structEq (f g : TypedField) : Option Bool :=
  if f.field.key ≠ g.field.key then some false
  else if f.field.type ≠ g.field.type then some false
  else if f.field.integer ≠ g.field.integer then some false
  else if f.field.string ≠ g.field.string then some false
  else interfaceEq ifaceEq f g

/-- `bytes.Equal(a.([]byte), b.([]byte))`; the assertions panic on anything but a byte slice. -/
def bytesEq : Iface → Iface → Option Bool
  | .bytes v, .bytes w => some (v == w)
  | _, _ => none

/-- `Field.Equals(other)`; `none` where it panics. -/
def Field.Equals (f other : TypedField) : Option Bool :=
  if f.field.type ≠ other.field.type then some false
  else if f.field.key ≠ other.field.key then some false
  else
    match f.field.type with
    | .binaryType | .byteStringType => bytesEq f.field.iface other.field.iface
    | .arrayMarshalerType | .objectMarshalerType | .errorType | .reflectType =>
      some (deepEqual f.field.iface other.field.iface)
    | _ => structEq ifaceEq f other

end Equals

/-! ### Symmetry -/

section Symmetric

variable {deepEqual ifaceEq : Iface → Iface → Bool}

theorem bytesEq_comm (a b : Iface) : bytesEq a b = bytesEq b a := by
  cases a <;> cases b <;> simp [bytesEq, Bool.beq_comm]

theorem interfaceEq_comm (hiface : ∀ a b, ifaceEq a b = ifaceEq b a) (a b : TypedField) :
    interfaceEq ifaceEq a b = interfaceEq ifaceEq b a := by
  unfold interfaceEq
  rcases a.ifaceType with _ | t <;> rcases b.ifaceType with _ | u
  · rfl
  · rfl
  · rfl
  · by_cases htu : t = u
    · subst htu
      simp [hiface]
    · simp [htu, Ne.symm htu]

theorem structEq_comm (hiface : ∀ a b, ifaceEq a b = ifaceEq b a) (f g : TypedField) :
    structEq ifaceEq f g = structEq ifaceEq g f := by
  unfold structEq
  by_cases hk : f.field.key = g.field.key
  · by_cases ht : f.field.type = g.field.type
    · by_cases hi : f.field.integer = g.field.integer
      · by_cases hs : f.field.string = g.field.string
        · simp [hk, ht, hi, hs, interfaceEq_comm hiface f g]
        · simp [hk, ht, hi, hs, Ne.symm hs]
      · simp [hk, ht, hi, Ne.symm hi]
    · simp [hk, ht, Ne.symm ht]
  · simp [hk, Ne.symm hk]

/-- `Equals` is symmetric whenever `reflect.DeepEqual` and `==` on comparable values are: it
panics on `f, g` exactly when it panics on `g, f`, and otherwise gives the same answer. -/
theorem Equals_comm (hdeep : ∀ a b, deepEqual a b = deepEqual b a)
    (hiface : ∀ a b, ifaceEq a b = ifaceEq b a) (f g : TypedField) :
    Field.Equals deepEqual ifaceEq f g = Field.Equals deepEqual ifaceEq g f := by
  unfold Field.Equals
  by_cases ht : f.field.type = g.field.type
  · by_cases hk : f.field.key = g.field.key
    · simp only [ht, hk, ne_eq, not_true_eq_false, if_false]
      split
      · exact bytesEq_comm _ _
      · exact bytesEq_comm _ _
      all_goals first
        | exact congrArg some (hdeep _ _)
        | exact structEq_comm hiface f g
    · simp [ht, hk, Ne.symm hk]
  · simp [ht, Ne.symm ht]

/-- A string field and an integer field under one key, either way round. -/
theorem Equals_comm_string_int :
    (∀ a b : Iface, (fun _ _ => false : Iface → Iface → Bool) a b = (fun _ _ => false) b a) ∧
      Field.Equals (fun _ _ => false) (fun _ _ => false)
          ⟨⟨ascii "a", .stringType, 0, ascii "b", .nil⟩, none⟩ ⟨⟨ascii "a", .int64Type, 1, [], .nil⟩, none⟩ =
        Field.Equals (fun _ _ => false) (fun _ _ => false)
          ⟨⟨ascii "a", .int64Type, 1, [], .nil⟩, none⟩ ⟨⟨ascii "a", .stringType, 0, ascii "b", .nil⟩, none⟩ :=
  ⟨fun _ _ => rfl, Equals_comm (fun _ _ => rfl) (fun _ _ => rfl) _ _⟩

end Symmetric

/-! ### Panics -/

/-- `==` does not panic on an interface that is nil or of a comparable type. -/
theorem interfaceEq_ne_none (ifaceEq : Iface → Iface → Bool) {a : TypedField} (b : TypedField)
    (hc : ∀ t, a.ifaceType = some t → t.comparable = true) : interfaceEq ifaceEq a b ≠ none := by
  unfold interfaceEq
  rcases ha : a.ifaceType with _ | t <;> rcases b.ifaceType with _ | u
  · simp
  · simp
  · simp
  · have ht := hc t ha
    simp only
    split_ifs <;> simp

/-- `Equals` does not panic on a field that is not a byte slice and whose interface is nil or of
a comparable type. -/
theorem Equals_ne_none (deepEqual ifaceEq : Iface → Iface → Bool) {f : TypedField}
    (g : TypedField) (hb : f.field.type ≠ .binaryType ∧ f.field.type ≠ .byteStringType)
    (hc : ∀ t, f.ifaceType = some t → t.comparable = true) :
    Field.Equals deepEqual ifaceEq f g ≠ none := by
  have hstruct : structEq ifaceEq f g ≠ none := by
    unfold structEq
    split_ifs
    all_goals first
      | exact Option.some_ne_none _
      | exact interfaceEq_ne_none ifaceEq g hc
  unfold Field.Equals
  split_ifs
  · exact Option.some_ne_none _
  · exact Option.some_ne_none _
  · split
    · next h => exact absurd h hb.1
    · next h => exact absurd h hb.2
    all_goals first
      | exact Option.some_ne_none _
      | exact hstruct

/-- A string field with a nil interface against one whose interface is a slice. -/
theorem Equals_ne_none_string :
    ((⟨ascii "a", .stringType, 0, ascii "b", .nil⟩ : Field).type ≠ .binaryType ∧
        (⟨ascii "a", .stringType, 0, ascii "b", .nil⟩ : Field).type ≠ .byteStringType) ∧
      Field.Equals (fun _ _ => true) (fun _ _ => true)
          ⟨⟨ascii "a", .stringType, 0, ascii "b", .nil⟩, none⟩
          ⟨⟨ascii "a", .stringType, 0, ascii "b", .nil⟩, some ⟨ascii "[]int", false⟩⟩ ≠ none :=
  ⟨⟨by decide, by decide⟩, Equals_ne_none _ _ _ ⟨by decide, by decide⟩ fun _ h => by cases h⟩

/-- `dictObject`, a slice of fields, which `==` cannot compare. -/
def dictObjectType : DynType := ⟨ascii "lad.dictObject", false⟩

/-- `Inline(DictObject(fs...))`, with the dynamic type of its marshaler. -/
def inlineDict (fs : List Field) : Option TypedField :=
  (lad.DictObject fs).map fun m => ⟨lad.Inline m, some dictObjectType⟩

/-- `Dict(key, fs...)`, with the dynamic type of its marshaler. -/
def objectDict (key : List UInt8) (fs : List Field) : Option TypedField :=
  (lad.Dict key fs).map fun f => ⟨f, some dictObjectType⟩

/-- `Dict` is compared by `reflect.DeepEqual`, which does not panic. -/
theorem Equals_objectDict (deepEqual ifaceEq : Iface → Iface → Bool) {key : List UInt8}
    {fs : List Field} {g : TypedField} (hg : objectDict key fs = some g) :
    Field.Equals deepEqual ifaceEq g g = some (deepEqual g.field.iface g.field.iface) := by
  obtain ⟨f, hf, rfl⟩ := Option.map_eq_some_iff.1 hg
  obtain ⟨m, -, rfl⟩ := Option.map_eq_some_iff.1 hf
  simp [Field.Equals, lad.Object]

/-- `Inline(DictObject(fs...))` holds a slice under `InlineMarshalerType`, which `Equals`
compares with `==`: comparing such a field with itself panics. -/
theorem Equals_inlineDict (deepEqual ifaceEq : Iface → Iface → Bool) (fs : List Field)
    (f : TypedField) (hf : inlineDict fs = some f) : Field.Equals deepEqual ifaceEq f f = none := by
  obtain ⟨m, -, rfl⟩ := Option.map_eq_some_iff.1 hf
  simp [Field.Equals, structEq, interfaceEq, lad.Inline, dictObjectType]

theorem Equals_inlineDict_nil :
    inlineDict [] = some ⟨lad.Inline (.ret none), some dictObjectType⟩ ∧
      Field.Equals (fun _ _ => true) (fun _ _ => true) ⟨lad.Inline (.ret none), some dictObjectType⟩
        ⟨lad.Inline (.ret none), some dictObjectType⟩ = none :=
  ⟨rfl, Equals_inlineDict _ _ [] _ rfl⟩

end Lad
