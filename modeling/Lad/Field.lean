import Lad.Ladcore.Field

/-!
# Field constructors of package `lad`

`Time` packs a time into the field's `int64` when its `UnixNano` fits (`Time_packed_iff`), and
`AddTo` unpacks it with `time.Unix(0, n).In(loc)`, so every time reaches the encoder as it was
given (`Time_addTo`).
-/

namespace Lad

open Go

namespace lad

/-- `Skip()`: a field that adds nothing. -/
def Skip : Field := ⟨[], .skipType, 0, [], .nil⟩

/-- `NamedError(key, err)`: the error under `key`, `Skip()` for a nil error. -/
def NamedError (key : List UInt8) : Option GoError → Field
  | none => Skip
  | some err => ⟨key, .errorType, 0, [], .error err⟩

/-- `Error(err)`, for an error that is not nil. -/
def Error (err : GoError) : Field := NamedError (ascii "error") (some err)

def Object (key : List UInt8) (val : ObjectMarshaler) : Field :=
  ⟨key, .objectMarshalerType, 0, [], .objectMarshaler val⟩

/-- `Inline(val)`: no key, the marshaler's members added where the field is. -/
def Inline (val : ObjectMarshaler) : Field := ⟨[], .inlineMarshalerType, 0, [], .objectMarshaler val⟩

/-- `dictObject.MarshalLogObject`: `AddTo` of each field in turn, then `nil`; `none` where an
`AddTo` panics. -/
def dictObject.MarshalLogObject (val : List Field) : Option ObjectMarshaler := addFields val

/-- `DictObject(val...)`, by what its `MarshalLogObject` does. -/
def DictObject (val : List Field) : Option ObjectMarshaler := dictObject.MarshalLogObject val

/-- `Dict(key, val...)`: `Object(key, dictObject(val))`. -/
def Dict (key : List UInt8) (val : List Field) : Option Field := (DictObject val).map (Object key)

/-- `_minTimeInt64`, `time.Unix(0, math.MinInt64)`. -/
def minTimeInt64 : Go.Time := unix 0 (-2 ^ 63)

/-- `_maxTimeInt64`, `time.Unix(0, math.MaxInt64)`. -/
def maxTimeInt64 : Go.Time := unix 0 (2 ^ 63 - 1)

def Time (key : List UInt8) (val : Go.Time) : Field :=
  if val.Before minTimeInt64 ∨ val.After maxTimeInt64 then ⟨key, .timeFullType, 0, [], .time val⟩
  else ⟨key, .timeType, val.unixNano, [], .location val.loc⟩

/-- The bounds are the instants whose nanoseconds since the epoch fit an `int64`. -/
theorem Time_packed_iff (t : Go.Time) :
    ¬(t.Before minTimeInt64 ∨ t.After maxTimeInt64) ↔
      -2 ^ 63 ≤ t.epochNanos ∧ t.epochNanos < 2 ^ 63 := by
  rw [Go.Time.before_iff, Go.Time.after_iff, minTimeInt64, maxTimeInt64, epochNanos_unix,
    epochNanos_unix]
  omega

/-- Every time reaches the encoder as it was given, location included; it is packed exactly when
its nanoseconds since the epoch fit an `int64`, and then packed without wrapping. -/
theorem Time_addTo (key : List UInt8) (t : Go.Time) :
    (Time key t).addTo = some (.add key (.time t) (.ret none)) ∧
      ((Time key t).type = .timeType ↔ -2 ^ 63 ≤ t.epochNanos ∧ t.epochNanos < 2 ^ 63) ∧
      ((Time key t).type = .timeType → (Time key t).integer = t.epochNanos) := by
  by_cases hfull : t.Before minTimeInt64 ∨ t.After maxTimeInt64
  · have hout : ¬(-2 ^ 63 ≤ t.epochNanos ∧ t.epochNanos < 2 ^ 63) :=
      fun hin => (Time_packed_iff t).2 hin hfull
    simp only [Time, if_pos hfull]
    refine ⟨rfl, ?_, ?_⟩
    · simpa using hout
    · intro h
      cases h
  · obtain ⟨hlo, hhi⟩ := (Time_packed_iff t).1 hfull
    have hnano : t.unixNano = t.epochNanos := by
      rw [Go.Time.unixNano_eq, wrap64_of_range hlo hhi]
    simp only [Time, if_neg hfull, hnano]
    refine ⟨?_, iff_of_true trivial ⟨hlo, hhi⟩, fun _ => trivial⟩
    simp only [Field.addTo, unix_epochNanos_in]

end lad

end Lad
