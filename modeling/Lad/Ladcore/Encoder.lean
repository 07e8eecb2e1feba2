import Lad.Ladcore.Entry

/-!
# Encoders and marshalers

A marshaler is user code that calls the encoder it is given; it is written here as the calls it
makes, each followed by what it does next given the error that call returned (`ObjectMarshaler`,
`ArrayMarshaler`), so every encoder runs the same program. A configured encoder is the list of
calls it makes (`PrimCall`), and `Runtime` holds the standard-library functions they call.
-/

namespace Lad

open Go

/-- The argument of a method of `PrimitiveArrayEncoder`. `AppendInt`, `AppendInt32`,
`AppendInt16` and `AppendInt8` widen their argument to `int64` and `AppendUint`,
`AppendUint32`, ... to `uint64` before encoding it, so one constructor stands for each
family; a float is given by its IEEE 754 bits. -/
inductive Prim where
  | bool (b : Bool)
  | byteString (v : Array UInt8)
  | complex128 (re im : UInt64)
  | complex64 (re im : UInt32)
  | float64 (v : UInt64)
  | float32 (v : UInt32)
  | int64 (v : Int)
  | string (s : List UInt8)
  | uint64 (v : Nat)

/-- The argument of a value method of `ArrayEncoder`: a primitive, `AppendDuration` or
`AppendTime`. -/
inductive Elem where
  | prim (p : Prim)
  | duration (d : Int)
  | time (t : Time)

/-- A call that a `LevelEncoder`, `TimeEncoder`, `DurationEncoder`, `CallerEncoder` or
`NameEncoder` makes on the encoder it is given: a method of `PrimitiveArrayEncoder`, or
`encodeTimeLayout`, which calls `AppendTimeLayout` on an encoder that has it and appends the
formatted time as a string on one that does not. -/
inductive PrimCall where
  | append (p : Prim)
  | encodeTimeLayout (t : Time) (layout : List UInt8)

/-- An `error` a marshaler returns, by the text of its `Error` method. -/
abbrev Err := List UInt8

/-- A `fmt.Stringer`: what its `String` method returns, or that it panics, on a nil pointer or
with some other value. -/
inductive Stringer where
  | ok (s : List UInt8)
  | nilPanic
  | panics (v : List UInt8)

/-- An `error` carried by a field: its `Error` text and which of the interfaces that
`encodeError` looks for it implements, or that `Error` panics. A `group` is an `errorGroup`,
whose `Errors` may hold nil errors. -/
inductive GoError where
  | basic (msg : List UInt8)
  | formatter (msg verbose : List UInt8)
  | group (msg : List UInt8) (errs : List (Option GoError))
  | nilPanic
  | panics (v : List UInt8)

mutual

/-- An `interface{}` value, as a field carries it. -/
inductive Iface where
  | nil
  | objectMarshaler (m : ObjectMarshaler)
  | arrayMarshaler (m : ArrayMarshaler)
  | bytes (v : Array UInt8)
  | complex128 (re im : UInt64)
  | complex64 (re im : UInt32)
  | location (l : Location)
  | time (t : Time)
  | stringer (s : Stringer)
  | error (e : GoError)
  /-- Any other value, such as one given to `Reflect`; only a reflected encoder looks at it. -/
  | other (id : Nat)

/-- What `MarshalLogObject` does with its `ObjectEncoder`: return, or call one of its methods
and go on. `add` is `AddBool`, `AddByteString`, `AddInt64`, `AddString`, `AddDuration`,
`AddTime`, ... by the kind of its argument. -/
inductive ObjectMarshaler where
  | ret (err : Option Err)
  | addArray (key : List UInt8) (m : ArrayMarshaler) (k : Option Err → ObjectMarshaler)
  | addObject (key : List UInt8) (m : ObjectMarshaler) (k : Option Err → ObjectMarshaler)
  | addBinary (key : List UInt8) (v : Array UInt8) (k : ObjectMarshaler)
  | add (key : List UInt8) (v : Elem) (k : ObjectMarshaler)
  | addReflected (key : List UInt8) (v : Iface) (k : Option Err → ObjectMarshaler)
  | openNamespace (key : List UInt8) (k : ObjectMarshaler)

/-- What `MarshalLogArray` does with its `ArrayEncoder`. -/
inductive ArrayMarshaler where
  | ret (err : Option Err)
  | appendArray (m : ArrayMarshaler) (k : Option Err → ArrayMarshaler)
  | appendObject (m : ObjectMarshaler) (k : Option Err → ArrayMarshaler)
  | append (v : Elem) (k : ArrayMarshaler)
  | appendReflected (v : Iface) (k : Option Err → ArrayMarshaler)

end

namespace ObjectMarshaler

/-- Run `m`, then `k` with the error `m` returned: a marshaler that calls another one on its
own encoder, as `Inline` does. -/
def bind : ObjectMarshaler → (Option Err → ObjectMarshaler) → ObjectMarshaler
  | .ret err, k => k err
  | .addArray key m k', k => .addArray key m fun e => bind (k' e) k
  | .addObject key m k', k => .addObject key m fun e => bind (k' e) k
  | .addBinary key v k', k => .addBinary key v (bind k' k)
  | .add key v k', k => .add key v (bind k' k)
  | .addReflected key v k', k => .addReflected key v fun e => bind (k' e) k
  | .openNamespace key k', k => .openNamespace key (bind k' k)

@[simp] theorem ret_bind (err : Option Err) (k : Option Err → ObjectMarshaler) :
    (ObjectMarshaler.ret err).bind k = k err := rfl

/-- Running `m` then `f` then `g` is running `m`, then `f` followed by `g`. -/
theorem bind_assoc : ∀ (m : ObjectMarshaler) (f g : Option Err → ObjectMarshaler),
    (m.bind f).bind g = m.bind fun e => (f e).bind g
  | .ret _, _, _ => rfl
  | .addArray key m k, f, g => by
    simp only [bind]
    exact congrArg _ (funext fun e => bind_assoc (k e) f g)
  | .addObject key m k, f, g => by
    simp only [bind]
    exact congrArg _ (funext fun e => bind_assoc (k e) f g)
  | .addBinary key v k, f, g => by
    simp only [bind]
    rw [bind_assoc k f g]
  | .add key v k, f, g => by
    simp only [bind]
    rw [bind_assoc k f g]
  | .addReflected key v k, f, g => by
    simp only [bind]
    exact congrArg _ (funext fun e => bind_assoc (k e) f g)
  | .openNamespace key k, f, g => by
    simp only [bind]
    rw [bind_assoc k f g]

end ObjectMarshaler

/-- `EncoderConfig`, with the fields the encoders read. A configurable encoder that is `none`
is a nil function. -/
structure EncoderConfig where
  messageKey : List UInt8
  levelKey : List UInt8
  timeKey : List UInt8
  nameKey : List UInt8
  callerKey : List UInt8
  functionKey : List UInt8
  stacktraceKey : List UInt8
  skipLineEnding : Bool
  lineEnding : List UInt8
  encodeLevel : Option (Level → List PrimCall)
  encodeTime : Option (Time → List PrimCall)
  encodeDuration : Option (Int → List PrimCall)
  encodeCaller : Option (EntryCaller → List PrimCall)
  encodeName : Option (List UInt8 → List PrimCall)
  /-- `NewReflectedEncoder`, by what its `Encode` writes for a value, or the error it
  returns. -/
  newReflectedEncoder : Option (Iface → Except Err (List UInt8))
  consoleSeparator : List UInt8

def DefaultLineEnding : List UInt8 := [0x0A]

def FullNameEncoder (loggerName : List UInt8) : List PrimCall := [.append (.string loggerName)]

def LowercaseLevelEncoder (l : Level) : List PrimCall := [.append (.string l.string)]

def CapitalLevelEncoder (l : Level) : List PrimCall := [.append (.string l.capitalString)]

def EpochNanosTimeEncoder (t : Time) : List PrimCall := [.append (.int64 t.unixNano)]

def TimeEncoderOfLayout (layout : List UInt8) (t : Time) : List PrimCall :=
  [.encodeTimeLayout t layout]

def ISO8601TimeEncoder : Time → List PrimCall :=
  TimeEncoderOfLayout (ascii "2006-01-02T15:04:05.000Z0700")

def NanosDurationEncoder (d : Int) : List PrimCall := [.append (.int64 d)]

/-- `MillisDurationEncoder`: the nanoseconds divided by `1e6`, truncated toward zero. -/
def MillisDurationEncoder (d : Int) : List PrimCall := [.append (.int64 (d.tdiv 1000000))]

/-- `FullCallerEncoder`: `caller.String()`, which is its full path. -/
def FullCallerEncoder (caller : EntryCaller) : List PrimCall := [.append (.string caller.fullPath)]

/-- The functions of Go's standard library that the encoders call:
`strconv.AppendFloat(_, f, 'f', -1, bitSize)`, `time.Time.AppendFormat`,
`base64.StdEncoding.EncodeToString`, what a `json.Encoder` with HTML escaping off writes
for a value, which `defaultReflectedEncoder` uses, and what `fmt.Fprint` writes for a float
and a complex number of the given bit size, which the console encoder uses. -/
structure Runtime where
  appendFloat : UInt64 → Nat → List UInt8
  appendFormat : Time → List UInt8 → List UInt8
  base64 : Array UInt8 → List UInt8
  jsonEncode : Iface → Except Err (List UInt8)
  fprintFloat : UInt64 → Nat → List UInt8
  fprintComplex : UInt64 → UInt64 → Nat → List UInt8

end Lad
