import Lad.Ladcore.Encoder

/-!
# Fields

`Field.AddTo` switches on the field's type tag and calls the matching encoder method; the switch
is written as the marshaler it amounts to (`Field.addTo`), `none` where it panics.
`encodeError` and `encodeStringer` recover a panic of `Error` or `String`.
-/

namespace Lad

open Go

inductive FieldType where
  | unknownType
  | arrayMarshalerType
  | objectMarshalerType
  | binaryType
  | boolType
  | byteStringType
  | complex128Type
  | complex64Type
  | durationType
  | float64Type
  | float32Type
  | int64Type
  | int32Type
  | int16Type
  | int8Type
  | stringType
  | timeType
  | timeFullType
  | uint64Type
  | uint32Type
  | uint16Type
  | uint8Type
  | uintptrType
  | reflectType
  | namespaceType
  | stringerType
  | errorType
  | skipType
  | inlineMarshalerType
  deriving DecidableEq, Repr

/-- `Field`; `integer` is an `int64`. -/
structure Field where
  key : List UInt8
  type : FieldType
  integer : Int
  string : List UInt8
  iface : Iface

/-- `fmt.Sprintf("PANIC=%v", v)`. -/
def panicErr (v : List UInt8) : Err := ascii "PANIC=" ++ v

/-- The text of the panic of a failed conversion to `fmt.Stringer`, as far as the model
keeps it. -/
def conversionPanic : List UInt8 := ascii "interface conversion"

mutual

/-- `encodeError(key, err, enc)`: the error's text under `key`, then its causes as an array
under `keyCauses` for an error group, or its verbose text under `keyVerbose` for a
`fmt.Formatter` whose `%+v` differs from `Error`. A panic of `Error` on a nil pointer gives
`<nil>`, any other one an error. -/
def encodeError (key : List UInt8) : GoError → ObjectMarshaler
  | .basic msg => .add key (.prim (.string msg)) (.ret none)
  | .formatter msg verbose =>
    .add key (.prim (.string msg))
      (if verbose ≠ msg then .add (key ++ ascii "Verbose") (.prim (.string verbose)) (.ret none)
        else .ret none)
  | .group msg errs =>
    .add key (.prim (.string msg)) (.addArray (key ++ ascii "Causes") (errArray errs) .ret)
  | .nilPanic => .add key (.prim (.string (ascii "<nil>"))) (.ret none)
  | .panics v => .ret (some (panicErr v))

/-- `errArray.MarshalLogArray`: each non-nil error as an object `{"error": ...}`, stopping at
the first error `AppendObject` returns. -/
def errArray : List (Option GoError) → ArrayMarshaler
  | [] => .ret none
  | none :: errs => errArray errs
  | some e :: errs =>
    .appendObject (encodeError (ascii "error") e) fun err =>
      match err with
      | some x => .ret (some x)
      | none => errArray errs

end

def encodeStringer (key : List UInt8) : Iface → ObjectMarshaler
  | .stringer (.ok s) => .add key (.prim (.string s)) (.ret none)
  | .stringer .nilPanic => .add key (.prim (.string (ascii "<nil>"))) (.ret none)
  | .stringer (.panics v) => .ret (some (panicErr v))
  | _ => .ret (some (panicErr conversionPanic))

/-- `int32(x)`, `int16(x)`, `int8(x)` of an `int64`: the low bits, as a signed value. -/
def truncInt (bits : Nat) (x : Int) : Int := Int.bmod x (2 ^ bits)

/-- `uint64(x)`, `uint32(x)`, ... of an `int64`: the low bits, as an unsigned value. -/
def truncUint (bits : Nat) (x : Int) : Nat := (x % 2 ^ bits).toNat

/-- `Field.AddTo`, as the calls it makes on the encoder; `none` where it panics. -/
def Field.addTo (f : Field) : Option ObjectMarshaler :=
  let done : ObjectMarshaler := .ret none
  let reportErr : Option Err → ObjectMarshaler := fun err =>
    match err with
    | some e => .add (f.key ++ ascii "Error") (.prim (.string e)) done
    | none => done
  let add (v : Elem) : Option ObjectMarshaler := some (.add f.key v done)
  match f.type, f.iface with
  | .arrayMarshalerType, .arrayMarshaler m => some (.addArray f.key m reportErr)
  | .objectMarshalerType, .objectMarshaler m => some (.addObject f.key m reportErr)
  | .inlineMarshalerType, .objectMarshaler m => some (m.bind reportErr)
  | .binaryType, .bytes v => some (.addBinary f.key v done)
  | .boolType, _ => add (.prim (.bool (f.integer == 1)))
  | .byteStringType, .bytes v => add (.prim (.byteString v))
  | .complex128Type, .complex128 re im => add (.prim (.complex128 re im))
  | .complex64Type, .complex64 re im => add (.prim (.complex64 re im))
  | .durationType, _ => add (.duration f.integer)
  | .float64Type, _ => add (.prim (.float64 (UInt64.ofNat (truncUint 64 f.integer))))
  | .float32Type, _ => add (.prim (.float32 (UInt32.ofNat (truncUint 32 f.integer))))
  | .int64Type, _ => add (.prim (.int64 f.integer))
  | .int32Type, _ => add (.prim (.int64 (truncInt 32 f.integer)))
  | .int16Type, _ => add (.prim (.int64 (truncInt 16 f.integer)))
  | .int8Type, _ => add (.prim (.int64 (truncInt 8 f.integer)))
  | .stringType, _ => add (.prim (.string f.string))
  | .timeType, .nil => add (.time (unix 0 f.integer))
  | .timeType, .location l => add (.time ((unix 0 f.integer).in l))
  | .timeFullType, .time t => add (.time t)
  | .uint64Type, _ => add (.prim (.uint64 (truncUint 64 f.integer)))
  | .uint32Type, _ => add (.prim (.uint64 (truncUint 32 f.integer)))
  | .uint16Type, _ => add (.prim (.uint64 (truncUint 16 f.integer)))
  | .uint8Type, _ => add (.prim (.uint64 (truncUint 8 f.integer)))
  | .uintptrType, _ => add (.prim (.uint64 (truncUint 64 f.integer)))
  | .reflectType, v => some (.addReflected f.key v reportErr)
  | .namespaceType, _ => some (.openNamespace f.key done)
  | .stringerType, v => some ((encodeStringer f.key v).bind reportErr)
  | .errorType, .error e => some ((encodeError f.key e).bind reportErr)
  | .skipType, _ => some done
  | _, _ => none

/-- `addFields(enc, fields)`: each field's `AddTo` in turn, `none` if one of them panics. -/
def addFields : List Field → Option ObjectMarshaler
  | [] => some (.ret none)
  | f :: fs => do
    let m ← f.addTo
    let rest ← addFields fs
    pure (m.bind fun _ => rest)

/-- The fields of two lists, in turn: the marshaler of the first list, then the second's. -/
theorem addFields_append (A B : List Field) :
    addFields (A ++ B) = (addFields A).bind fun m => (addFields B).map fun r => m.bind fun _ => r := by
  induction A with
  | nil => simp [addFields]
  | cons f A ih =>
    simp only [List.cons_append, addFields, ih]
    cases f.addTo with
    | none => rfl
    | some m =>
      cases addFields A with
      | none => rfl
      | some mA =>
        cases addFields B with
        | none => rfl
        | some mB => simp [ObjectMarshaler.bind_assoc]

end Lad
