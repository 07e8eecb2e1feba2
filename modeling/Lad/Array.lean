import Lad.Logger.Sugar
import Lad.Ladcore.JsonEncoder.Memory

/-!
# Array fields

`Bools`, `Ints`, `Strings` and the other slice fields are `Array` of a marshaler that appends
each element with one method; one loop, `appendEach`, stands for all of them. `Objects` stops at
the first marshaler that fails. A fresh JSON encoder writes such a field as one member holding
the array of the elements' values (`decode_appendEach`, `decode_Objects_ok`, `decode_Objects_error`).
-/

namespace Lad

open Go Utf8 JsonEncoder

-- The model of `array.go` stands outside `lad`, whose field constructors `Bool`, `Int64`, ...
-- would shadow the element types.

variable {α : Type}

/-- The loop of the `MarshalLogArray` methods of `array.go`'s slice types: each element appended
with the method of its type, whose argument `elem` gives, and nil returned. -/
def appendEach (elem : α → Elem) : List α → ArrayMarshaler
  | [] => .ret none
  | x :: xs => .append (elem x) (appendEach elem xs)

/-! ### The slice types -/

/-- `bools.MarshalLogArray`: `AppendBool`. -/
def bools.MarshalLogArray (bs : List Bool) : ArrayMarshaler := appendEach (fun b => .prim (.bool b)) bs

/-- `byteStringsArray.MarshalLogArray`: `AppendByteString`. -/
def byteStringsArray.MarshalLogArray (bss : List (Array UInt8)) : ArrayMarshaler :=
  appendEach (fun bs => .prim (.byteString bs)) bss

/-- `complex128s.MarshalLogArray`: `AppendComplex128`, of the bits of each part. -/
def complex128s.MarshalLogArray (nums : List (UInt64 × UInt64)) : ArrayMarshaler :=
  appendEach (fun n => .prim (.complex128 n.1 n.2)) nums

/-- `complex64s.MarshalLogArray`: `AppendComplex64`, of the bits of each part. -/
def complex64s.MarshalLogArray (nums : List (UInt32 × UInt32)) : ArrayMarshaler :=
  appendEach (fun n => .prim (.complex64 n.1 n.2)) nums

/-- `durations.MarshalLogArray`: `AppendDuration`, of nanoseconds. -/
def durations.MarshalLogArray (ds : List Int64) : ArrayMarshaler :=
  appendEach (fun d => .duration d.toInt) ds

/-- `float64s.MarshalLogArray`: `AppendFloat64`, of the bits. -/
def float64s.MarshalLogArray (nums : List UInt64) : ArrayMarshaler :=
  appendEach (fun n => .prim (.float64 n)) nums

/-- `float32s.MarshalLogArray`: `AppendFloat32`, of the bits. -/
def float32s.MarshalLogArray (nums : List UInt32) : ArrayMarshaler :=
  appendEach (fun n => .prim (.float32 n)) nums

/-- `ints.MarshalLogArray`: `AppendInt`, on a platform whose `int` has 64 bits. -/
def ints.MarshalLogArray (nums : List Int64) : ArrayMarshaler :=
  appendEach (fun n => .prim (.int64 n.toInt)) nums

/-- `int64s.MarshalLogArray`: `AppendInt64`. -/
def int64s.MarshalLogArray (nums : List Int64) : ArrayMarshaler :=
  appendEach (fun n => .prim (.int64 n.toInt)) nums

/-- `int32s.MarshalLogArray`: `AppendInt32`. -/
def int32s.MarshalLogArray (nums : List Int32) : ArrayMarshaler :=
  appendEach (fun n => .prim (.int64 n.toInt)) nums

/-- `int16s.MarshalLogArray`: `AppendInt16`. -/
def int16s.MarshalLogArray (nums : List Int16) : ArrayMarshaler :=
  appendEach (fun n => .prim (.int64 n.toInt)) nums

/-- `int8s.MarshalLogArray`: `AppendInt8`. -/
def int8s.MarshalLogArray (nums : List Int8) : ArrayMarshaler :=
  appendEach (fun n => .prim (.int64 n.toInt)) nums

/-- `stringArray.MarshalLogArray`: `AppendString`. -/
def stringArray.MarshalLogArray (ss : List (List UInt8)) : ArrayMarshaler :=
  appendEach (fun s => .prim (.string s)) ss

/-- `times.MarshalLogArray`: `AppendTime`. -/
def times.MarshalLogArray (ts : List Go.Time) : ArrayMarshaler := appendEach (fun t => .time t) ts

/-- `uints.MarshalLogArray`: `AppendUint`, on a platform whose `uint` has 64 bits. -/
def uints.MarshalLogArray (nums : List UInt64) : ArrayMarshaler :=
  appendEach (fun n => .prim (.uint64 n.toNat)) nums

/-- `uint64s.MarshalLogArray`: `AppendUint64`. -/
def uint64s.MarshalLogArray (nums : List UInt64) : ArrayMarshaler :=
  appendEach (fun n => .prim (.uint64 n.toNat)) nums

/-- `uint32s.MarshalLogArray`: `AppendUint32`. -/
def uint32s.MarshalLogArray (nums : List UInt32) : ArrayMarshaler :=
  appendEach (fun n => .prim (.uint64 n.toNat)) nums

/-- `uint16s.MarshalLogArray`: `AppendUint16`. -/
def uint16s.MarshalLogArray (nums : List UInt16) : ArrayMarshaler :=
  appendEach (fun n => .prim (.uint64 n.toNat)) nums

/-- `uint8s.MarshalLogArray`: `AppendUint8`. -/
def uint8s.MarshalLogArray (nums : List UInt8) : ArrayMarshaler :=
  appendEach (fun n => .prim (.uint64 n.toNat)) nums

/-- `uintptrs.MarshalLogArray`: `AppendUintptr`, on a platform whose `uintptr` has 64 bits. -/
def uintptrs.MarshalLogArray (us : List UInt64) : ArrayMarshaler :=
  appendEach (fun n => .prim (.uint64 n.toNat)) us

/-- `stringers.MarshalLogArray`: `AppendString` of each element's `String()`, given here by
what it returns. -/
def stringers.MarshalLogArray (ss : List (List UInt8)) : ArrayMarshaler :=
  appendEach (fun s => .prim (.string s)) ss

/-- `objects.MarshalLogArray`: `AppendObject` of each element, returning the first error. -/
def objects.MarshalLogArray : List ObjectMarshaler → ArrayMarshaler
  | [] => .ret none
  | o :: os =>
    .appendObject o fun err =>
      match err with
      | some e => .ret (some e)
      | none => objects.MarshalLogArray os

/-- `objectValues.MarshalLogArray`: the loop of `objects`, on a pointer to each element, whose
marshaler the element is given by here. -/
def objectValues.MarshalLogArray (os : List ObjectMarshaler) : ArrayMarshaler :=
  objects.MarshalLogArray os

/-! ### The field constructors -/

def Bools (key : List UInt8) (bs : List Bool) : Field := lad.Array key (bools.MarshalLogArray bs)

def ByteStrings (key : List UInt8) (bss : List (Array UInt8)) : Field :=
  lad.Array key (byteStringsArray.MarshalLogArray bss)

def Complex128s (key : List UInt8) (nums : List (UInt64 × UInt64)) : Field :=
  lad.Array key (complex128s.MarshalLogArray nums)

def Complex64s (key : List UInt8) (nums : List (UInt32 × UInt32)) : Field :=
  lad.Array key (complex64s.MarshalLogArray nums)

def Durations (key : List UInt8) (ds : List Int64) : Field :=
  lad.Array key (durations.MarshalLogArray ds)

def Float64s (key : List UInt8) (nums : List UInt64) : Field :=
  lad.Array key (float64s.MarshalLogArray nums)

def Float32s (key : List UInt8) (nums : List UInt32) : Field :=
  lad.Array key (float32s.MarshalLogArray nums)

def Ints (key : List UInt8) (nums : List Int64) : Field := lad.Array key (ints.MarshalLogArray nums)

def Int64s (key : List UInt8) (nums : List Int64) : Field :=
  lad.Array key (int64s.MarshalLogArray nums)

def Int32s (key : List UInt8) (nums : List Int32) : Field :=
  lad.Array key (int32s.MarshalLogArray nums)

def Int16s (key : List UInt8) (nums : List Int16) : Field :=
  lad.Array key (int16s.MarshalLogArray nums)

def Int8s (key : List UInt8) (nums : List Int8) : Field := lad.Array key (int8s.MarshalLogArray nums)

def Objects (key : List UInt8) (values : List ObjectMarshaler) : Field :=
  lad.Array key (objects.MarshalLogArray values)

def ObjectValues (key : List UInt8) (values : List ObjectMarshaler) : Field :=
  lad.Array key (objectValues.MarshalLogArray values)

def Strings (key : List UInt8) (ss : List (List UInt8)) : Field :=
  lad.Array key (stringArray.MarshalLogArray ss)

def Stringers (key : List UInt8) (values : List (List UInt8)) : Field :=
  lad.Array key (stringers.MarshalLogArray values)

def Times (key : List UInt8) (ts : List Go.Time) : Field := lad.Array key (times.MarshalLogArray ts)

def Uints (key : List UInt8) (nums : List UInt64) : Field := lad.Array key (uints.MarshalLogArray nums)

def Uint64s (key : List UInt8) (nums : List UInt64) : Field :=
  lad.Array key (uint64s.MarshalLogArray nums)

def Uint32s (key : List UInt8) (nums : List UInt32) : Field :=
  lad.Array key (uint32s.MarshalLogArray nums)

def Uint16s (key : List UInt8) (nums : List UInt16) : Field :=
  lad.Array key (uint16s.MarshalLogArray nums)

def Uint8s (key : List UInt8) (nums : List UInt8) : Field :=
  lad.Array key (uint8s.MarshalLogArray nums)

def Uintptrs (key : List UInt8) (us : List UInt64) : Field :=
  lad.Array key (uintptrs.MarshalLogArray us)

/-- `Errors(key, errs)`, with a nil error as `none`. -/
def Errors (key : List UInt8) (errs : List (Option GoError)) : Field := lad.Array key (errArray errs)

/-! ### What the encoders make of an array field -/

section Trees

variable (rt : Runtime) (cfg : EncoderConfig) {α : Type}

/-- The JSON tree of a slice: its elements' values, and no error. -/
theorem arrayTree_appendEach (elem : α → Elem) :
    ∀ xs : List α, arrayTree rt cfg (appendEach elem xs) = (xs.map (elemValue rt cfg ∘ elem), none)
  | [] => rfl
  | x :: xs => by
    simp only [appendEach, arrayTree, arrayTree_appendEach elem xs, List.map_cons,
      Function.comp_apply]

/-- The JSON tree of `objects` when every marshaler succeeds: each object, and no error. -/
theorem arrayTree_objects_ok :
    ∀ os : List ObjectMarshaler, (∀ o ∈ os, (objectTree rt cfg o).2 = none) →
      arrayTree rt cfg (objects.MarshalLogArray os) =
        (os.map fun o => .obj (objectTree rt cfg o).1, none)
  | [], _ => rfl
  | o :: os, h => by
    have ho := h o List.mem_cons_self
    simp only [objects.MarshalLogArray, arrayTree, ho, List.map_cons]
    rw [arrayTree_objects_ok os fun o' h' => h o' (List.mem_cons_of_mem o h')]

/-- The JSON tree of `objects` when a marshaler fails: each object up to that one, and its error;
the objects after it are not marshaled. -/
theorem arrayTree_objects_error {e : Err} (o : ObjectMarshaler) (post : List ObjectMarshaler)
    (ho : (objectTree rt cfg o).2 = some e) :
    ∀ pre : List ObjectMarshaler, (∀ p ∈ pre, (objectTree rt cfg p).2 = none) →
      arrayTree rt cfg (objects.MarshalLogArray (pre ++ o :: post)) =
        ((pre ++ [o]).map fun p => .obj (objectTree rt cfg p).1, some e)
  | [], _ => by
    simp only [List.nil_append, objects.MarshalLogArray, arrayTree, ho]
    rfl
  | p :: pre, h => by
    have hp := h p List.mem_cons_self
    simp only [List.cons_append, objects.MarshalLogArray, arrayTree, hp, List.map_cons]
    rw [arrayTree_objects_error o post ho pre fun p' h' => h p' (List.mem_cons_of_mem p h')]

/-- The tree of an array field: the array under its key, then the error its marshaler returned
under `<key>Error`. -/
theorem objectTree_addTo_Array (key : List UInt8) (m : ArrayMarshaler) :
    (lad.Array key m).addTo.map (objectTree rt cfg) =
      some ((replaceInvalid key, .arr (arrayTree rt cfg m).1) ::
        ((arrayTree rt cfg m).2.map fun e =>
          (replaceInvalid (key ++ ascii "Error"), Json.Value.str (replaceInvalid e))).toList, none) := by
  simp only [lad.Array, Field.addTo, Option.map_some, objectTree]
  cases (arrayTree rt cfg m).2 <;> rfl

end Trees

section Decode

variable {rt : Runtime} {e₀ : JsonEncoder} {α : Type}

/-- The marshaler of an array field writes leaves when its array marshaler does: the error
it reports is a string. -/
theorem leaves_addTo_Array {cfg : EncoderConfig} (key : List UInt8) {arr : ArrayMarshaler}
    (harr : arr.Leaves rt cfg) {m : ObjectMarshaler} (hm : (lad.Array key arr).addTo = some m) :
    m.Leaves rt cfg := by
  simp only [lad.Array, Field.addTo, Option.some.injEq] at hm
  subst hm
  refine ⟨harr, fun err => ?_⟩
  cases err with
  | none => trivial
  | some e => exact ⟨elemLeaf_of_isPlain rfl, trivial⟩

theorem leaves_appendEach {cfg : EncoderConfig} {elem : α → Elem} :
    ∀ {xs : List α}, (∀ x ∈ xs, ElemLeaf rt cfg (elem x)) → (appendEach elem xs).Leaves rt cfg
  | [], _ => trivial
  | x :: _, h => ⟨h x List.mem_cons_self, leaves_appendEach fun y hy => h y (List.mem_cons_of_mem x hy)⟩

theorem leaves_objects {cfg : EncoderConfig} :
    ∀ {os : List ObjectMarshaler}, (∀ o ∈ os, o.Leaves rt cfg) →
      (objects.MarshalLogArray os).Leaves rt cfg
  | [], _ => trivial
  | o :: _, h => by
    refine ⟨h o List.mem_cons_self, fun err => ?_⟩
    -- a failed object ends the loop; the next one is marshaled after a success
    cases err with
    | some e => trivial
    | none => exact leaves_objects fun p hp => h p (List.mem_cons_of_mem o hp)

/-- An array field, written by a fresh JSON encoder, decodes to its array under its key, then
the error its marshaler returned under `<key>Error`. -/
theorem decode_Array (h0 : e₀.buf.bs = []) (hns : e₀.openNamespaces = 0) (key : List UInt8)
    {arr : ArrayMarshaler} (harr : arr.Leaves rt e₀.config) :
    ∃ m, (lad.Array key arr).addTo = some m ∧
      Json.decode (0x7B :: ((marshalObject rt m e₀).1.closeOpenNamespaces.buf.bs ++ [0x7D])) =
        some (.obj ((replaceInvalid key, .arr (arrayTree rt e₀.config arr).1) ::
          ((arrayTree rt e₀.config arr).2.map fun e =>
            (replaceInvalid (key ++ ascii "Error"), Json.Value.str (replaceInvalid e))).toList)) := by
  obtain ⟨m, hm, htree⟩ := Option.map_eq_some_iff.mp (objectTree_addTo_Array rt e₀.config key arr)
  refine ⟨m, hm, ?_⟩
  rw [decode_marshalObject h0 hns rfl (leaves_addTo_Array key harr hm), htree]

/-- A field of a slice whose elements are each written as one JSON value, by a fresh JSON
encoder, decodes to one member: its key, holding the array of its elements' values. -/
theorem decode_appendEach (h0 : e₀.buf.bs = []) (hns : e₀.openNamespaces = 0) (key : List UInt8)
    (elem : α → Elem) (xs : List α) (helem : ∀ x ∈ xs, ElemLeaf rt e₀.config (elem x)) :
    ∃ m, (lad.Array key (appendEach elem xs)).addTo = some m ∧
      Json.decode (0x7B :: ((marshalObject rt m e₀).1.closeOpenNamespaces.buf.bs ++ [0x7D])) =
        some (.obj [(replaceInvalid key, .arr (xs.map (elemValue rt e₀.config ∘ elem)))]) := by
  obtain ⟨m, hm, hdec⟩ := decode_Array h0 hns key (leaves_appendEach helem)
  rw [arrayTree_appendEach] at hdec
  exact ⟨m, hm, hdec⟩

theorem decode_appendEach_ints :
    ∃ m, (lad.Array (ascii "ids") (appendEach (fun n : Int64 => .prim (.int64 n.toInt)) [1, 2])).addTo =
        some m ∧
      Json.decode (0x7B :: ((marshalObject constRuntime m
          (newJSONEncoder constRuntime sampleEncoderConfig false)).1.closeOpenNamespaces.buf.bs ++
          [0x7D])) =
        some (.obj [(replaceInvalid (ascii "ids"),
          .arr ([1, 2].map (elemValue constRuntime
            (newJSONEncoder constRuntime sampleEncoderConfig false).config ∘
              fun n : Int64 => .prim (.int64 n.toInt))))]) :=
  decode_appendEach rfl rfl _ _ _ fun _ _ => elemLeaf_of_isPlain rfl

/-- An `Objects` field whose marshalers all succeed decodes to the array of the objects, with no
`<key>Error` member. -/
theorem decode_Objects_ok (h0 : e₀.buf.bs = []) (hns : e₀.openNamespaces = 0) (key : List UInt8)
    (os : List ObjectMarshaler) (hleaves : ∀ o ∈ os, o.Leaves rt e₀.config)
    (hok : ∀ o ∈ os, (objectTree rt e₀.config o).2 = none) :
    ∃ m, (Objects key os).addTo = some m ∧
      Json.decode (0x7B :: ((marshalObject rt m e₀).1.closeOpenNamespaces.buf.bs ++ [0x7D])) =
        some (.obj [(replaceInvalid key, .arr (os.map fun o => .obj (objectTree rt e₀.config o).1))]) := by
  obtain ⟨m, hm, hdec⟩ := decode_Array h0 hns key (leaves_objects hleaves)
  rw [arrayTree_objects_ok rt e₀.config os hok] at hdec
  exact ⟨m, hm, hdec⟩

/-- An object holding `"k":"v"`, then an empty one. -/
theorem decode_Objects_ok_pair :
    ∃ m, (Objects (ascii "objs")
        [.add (ascii "k") (.prim (.string (ascii "v"))) (.ret none), .ret none]).addTo = some m ∧
      Json.decode (0x7B :: ((marshalObject constRuntime m
          (newJSONEncoder constRuntime sampleEncoderConfig false)).1.closeOpenNamespaces.buf.bs ++
          [0x7D])) =
        some (.obj [(replaceInvalid (ascii "objs"),
          .arr ([ObjectMarshaler.add (ascii "k") (.prim (.string (ascii "v"))) (.ret none),
            .ret none].map fun o => .obj (objectTree constRuntime
              (newJSONEncoder constRuntime sampleEncoderConfig false).config o).1))]) := by
  have hleaves : ∀ o ∈ [ObjectMarshaler.add (ascii "k") (.prim (.string (ascii "v"))) (.ret none),
      .ret none], o.Leaves constRuntime (newJSONEncoder constRuntime sampleEncoderConfig false).config := by
    intro o ho
    simp only [List.mem_cons, List.not_mem_nil, or_false] at ho
    rcases ho with rfl | rfl
    · exact ⟨elemLeaf_of_isPlain rfl, trivial⟩
    · trivial
  have hok : ∀ o ∈ [ObjectMarshaler.add (ascii "k") (.prim (.string (ascii "v"))) (.ret none),
      .ret none],
      (objectTree constRuntime (newJSONEncoder constRuntime sampleEncoderConfig false).config o).2 =
        none := by
    intro o ho
    simp only [List.mem_cons, List.not_mem_nil, or_false] at ho
    rcases ho with rfl | rfl <;> rfl
  exact decode_Objects_ok rfl rfl _ _ hleaves hok

/-- An `Objects` field whose marshalers succeed up to `o`, which fails, decodes to the objects up
to `o`, the part of `o` written before it failed included, and `o`'s error under `<key>Error`;
the objects after `o` are left out. -/
theorem decode_Objects_error (h0 : e₀.buf.bs = []) (hns : e₀.openNamespaces = 0)
    (key : List UInt8) (pre : List ObjectMarshaler) (o : ObjectMarshaler) (post : List ObjectMarshaler)
    (hleaves : ∀ p ∈ pre ++ o :: post, p.Leaves rt e₀.config)
    (hpre : ∀ p ∈ pre, (objectTree rt e₀.config p).2 = none) {e : Err}
    (ho : (objectTree rt e₀.config o).2 = some e) :
    ∃ m, (Objects key (pre ++ o :: post)).addTo = some m ∧
      Json.decode (0x7B :: ((marshalObject rt m e₀).1.closeOpenNamespaces.buf.bs ++ [0x7D])) =
        some (.obj [(replaceInvalid key, .arr ((pre ++ [o]).map fun p => .obj (objectTree rt e₀.config p).1)),
          (replaceInvalid (key ++ ascii "Error"), .str (replaceInvalid e))]) := by
  obtain ⟨m, hm, hdec⟩ := decode_Array h0 hns key (leaves_objects hleaves)
  rw [arrayTree_objects_error rt e₀.config o post ho pre hpre] at hdec
  exact ⟨m, hm, hdec⟩

theorem decode_Objects_error_first :
    ∃ m, (Objects (ascii "objs") ([] ++ ObjectMarshaler.ret (some (ascii "boom")) :: [])).addTo = some m ∧
      Json.decode (0x7B :: ((marshalObject constRuntime m
          (newJSONEncoder constRuntime sampleEncoderConfig false)).1.closeOpenNamespaces.buf.bs ++
          [0x7D])) =
        some (.obj [(replaceInvalid (ascii "objs"),
            .arr (([] ++ [ObjectMarshaler.ret (some (ascii "boom"))]).map fun p =>
              .obj (objectTree constRuntime
                (newJSONEncoder constRuntime sampleEncoderConfig false).config p).1)),
          (replaceInvalid (ascii "objs" ++ ascii "Error"), .str (replaceInvalid (ascii "boom")))]) :=
  decode_Objects_error rfl rfl _ [] _ [] (fun _ h => by simp at h; subst h; trivial)
    (fun _ h => absurd h List.not_mem_nil) rfl

end Decode

end Lad
