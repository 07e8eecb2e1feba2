import Lad.Ladcore.JsonEncoder.Frame

/-!
# The JSON value a marshaler describes

`objectTree` reads off the script what a run is meant to produce: a member per `Add` call,
nested objects and arrays, and for `OpenNamespace` one object holding every later member. Keys
and strings are what the decoder gives back for their escaped form (`replaceInvalid`).
-/

namespace Lad

open Go Utf8

namespace JsonEncoder

section Runtime

variable (rt : Runtime)

/-- What `appendFloat` denotes: a number, or a string for the values JSON has no number for. -/
def floatValue (v : UInt64) (bitSize : Nat) : Json.Value :=
  if isNaN v then .str (ascii "NaN")
  else if isPosInf v then .str (ascii "+Inf")
  else if isNegInf v then .str (ascii "-Inf")
  else .num (rt.appendFloat v bitSize)

/-- What a method of `PrimitiveArrayEncoder` denotes. -/
def primValue : Prim → Json.Value
  | .bool b => .bool b
  | .byteString v => .str (replaceInvalid v.toList)
  | .complex128 re im => .str (complexBody rt re im 64)
  | .complex64 re im => .str (complexBody rt (float64OfFloat32 re) (float64OfFloat32 im) 32)
  | .float64 v => floatValue rt v 64
  | .float32 v => floatValue rt (float64OfFloat32 v) 32
  | .int64 v => .num (Json.decimal v)
  | .string s => .str (replaceInvalid s)
  | .uint64 v => .num (Json.decimal v)

/-- What a call of a configurable encoder denotes. -/
def primCallValue : PrimCall → Json.Value
  | .append p => primValue rt p
  | .encodeTimeLayout t layout => .str (rt.appendFormat t layout)

/-- What a configurable encoder's calls denote, the fallback's value when it made none. -/
def callsValue (calls : List PrimCall) (fallback : Json.Value) : Json.Value :=
  match calls with
  | [] => fallback
  | c :: _ => primCallValue rt c

/-- What a value method of `ArrayEncoder` denotes under the configuration `cfg`. -/
def elemValue (cfg : EncoderConfig) : Elem → Json.Value
  | .prim p => primValue rt p
  | .duration d =>
    callsValue rt ((cfg.encodeDuration.map fun e => e d).getD []) (.num (Json.decimal d))
  | .time t =>
    callsValue rt ((cfg.encodeTime.map fun e => e t).getD []) (.num (Json.decimal t.unixNano))

/-- What `encodeReflected` gives for a value under the configuration `cfg`, decoded, or its
error. -/
def reflectedValue (cfg : EncoderConfig) (obj : Iface) : Except Err Json.Value :=
  match obj with
  | .nil => .ok .null
  | _ =>
    match (cfg.newReflectedEncoder.getD rt.jsonEncode) obj with
    | .error e => .error e
    | .ok bs => .ok ((Json.decode (trimNewline bs)).getD .null)

theorem reflectedValue_eq (obj : Iface) (enc : JsonEncoder) :
    reflectedValue rt enc.config obj =
      (encodeReflected rt obj enc).map fun bs => (Json.decode bs).getD .null := by
  unfold reflectedValue encodeReflected
  cases obj <;> try rfl
  all_goals
    cases (enc.config.newReflectedEncoder.getD rt.jsonEncode) _ <;> rfl

variable (cfg : EncoderConfig)

mutual

/-- The members a run of `m` adds to the object it runs in, and the error it returns. -/
def objectTree : ObjectMarshaler → List (List UInt8 × Json.Value) × Option Err
  | .ret err => ([], err)
  | .addArray key m k =>
    let r := arrayTree m
    let s := objectTree (k r.2)
    ((replaceInvalid key, .arr r.1) :: s.1, s.2)
  | .addObject key m k =>
    let r := objectTree m
    let s := objectTree (k r.2)
    ((replaceInvalid key, .obj r.1) :: s.1, s.2)
  | .addBinary key v k =>
    let s := objectTree k
    ((replaceInvalid key, .str (replaceInvalid (rt.base64 v))) :: s.1, s.2)
  | .add key v k =>
    let s := objectTree k
    ((replaceInvalid key, elemValue rt cfg v) :: s.1, s.2)
  | .addReflected key v k =>
    match reflectedValue rt cfg v with
    | .error e => objectTree (k (some e))
    | .ok x =>
      let s := objectTree (k none)
      ((replaceInvalid key, x) :: s.1, s.2)
  | .openNamespace key k =>
    -- everything after the namespace goes into it
    let s := objectTree k
    ([(replaceInvalid key, .obj s.1)], s.2)

/-- The elements a run of `m` adds to the array it runs in, and the error it returns. -/
def arrayTree : ArrayMarshaler → List Json.Value × Option Err
  | .ret err => ([], err)
  | .appendArray m k =>
    let r := arrayTree m
    let s := arrayTree (k r.2)
    (.arr r.1 :: s.1, s.2)
  | .appendObject m k =>
    let r := objectTree m
    let s := arrayTree (k r.2)
    (.obj r.1 :: s.1, s.2)
  | .append v k =>
    let s := arrayTree k
    (elemValue rt cfg v :: s.1, s.2)
  | .appendReflected v k =>
    match reflectedValue rt cfg v with
    | .error e => arrayTree (k (some e))
    | .ok x =>
      let s := arrayTree (k none)
      (x :: s.1, s.2)

end

theorem addKey_config (key : List UInt8) (e : JsonEncoder) : (e.addKey key).config = e.config :=
  (addKey_grows key e).config

mutual

/-- A run returns the error its script's tree gives. -/
theorem marshalObject_err : ∀ (m : ObjectMarshaler) (e : JsonEncoder),
    (marshalObject rt m e).2 = (objectTree rt e.config m).2
  | .ret _, _ => rfl
  | .addArray key m k, e => by
    have hg := (addKey_grows key e).trans (appendArray_grows (marshalArray_grows rt m) _)
    have herr : (appendArray (marshalArray rt m) (e.addKey key)).2 = (arrayTree rt e.config m).2 := by
      simp only [appendArray_eq]
      rw [marshalArray_err m _]
      simp [addKey_config]
    simp only [marshalObject, objectTree]
    rw [marshalObject_err (k _) _, herr, hg.config]
  | .addObject key m k, e => by
    have hg := (addKey_grows key e).trans (appendObject_grows (marshalObject_grows rt m) _)
    have herr : (appendObject (marshalObject rt m) (e.addKey key)).2 =
        (objectTree rt e.config m).2 := by
      simp only [appendObject_eq]
      rw [marshalObject_err m _]
      simp [addKey_config]
    simp only [marshalObject, objectTree]
    rw [marshalObject_err (k _) _, herr, hg.config]
  | .addBinary key v k, e => by
    simp only [marshalObject, objectTree]
    rw [marshalObject_err k _]
    simp [addString, appendString_eq, addKey_config]
  | .add key v k, e => by
    simp only [marshalObject, objectTree]
    rw [marshalObject_err k _, appendElem_eq, write_config, addKey_config]
  | .addReflected key v k, e => by
    simp only [marshalObject, objectTree, addReflected_eq, reflectedValue_eq]
    cases encodeReflected rt v e with
    | error x => exact marshalObject_err (k _) _
    | ok bs =>
      simp only [Except.map]
      rw [marshalObject_err (k _) _, write_config]
  | .openNamespace key k, e => by
    simp only [marshalObject, objectTree]
    rw [marshalObject_err k _, openNamespace_eq]
    rfl

/-- A run returns the error its script's tree gives. -/
theorem marshalArray_err : ∀ (m : ArrayMarshaler) (e : JsonEncoder),
    (marshalArray rt m e).2 = (arrayTree rt e.config m).2
  | .ret _, _ => rfl
  | .appendArray m k, e => by
    have hg := appendArray_grows (marshalArray_grows rt m) e
    have herr : (appendArray (marshalArray rt m) e).2 = (arrayTree rt e.config m).2 := by
      simp only [appendArray_eq]
      rw [marshalArray_err m _]
      simp
    simp only [marshalArray, arrayTree]
    rw [marshalArray_err (k _) _, herr, hg.config]
  | .appendObject m k, e => by
    have hg := appendObject_grows (marshalObject_grows rt m) e
    have herr : (appendObject (marshalObject rt m) e).2 = (objectTree rt e.config m).2 := by
      simp only [appendObject_eq]
      rw [marshalObject_err m _]
      simp
    simp only [marshalArray, arrayTree]
    rw [marshalArray_err (k _) _, herr, hg.config]
  | .append v k, e => by
    simp only [marshalArray, arrayTree]
    rw [marshalArray_err k _, appendElem_eq, write_config]
  | .appendReflected v k, e => by
    simp only [marshalArray, arrayTree, appendReflected_eq, reflectedValue_eq]
    cases encodeReflected rt v e with
    | error x => exact marshalArray_err (k _) _
    | ok bs =>
      simp only [Except.map]
      rw [marshalArray_err (k _) _, write_config]

end

/-! ### The members of an entry -/

/-- A member under `key`, if the key is set. -/
def keyed (key : List UInt8) (v : Json.Value) : List (List UInt8 × Json.Value) :=
  if key ≠ [] then [(replaceInvalid key, v)] else []

/-- The level member. -/
def levelMembers (ent : Entry) : List (List UInt8 × Json.Value) :=
  match cfg.encodeLevel with
  | some e => keyed cfg.levelKey (callsValue rt (e ent.level) (.str (replaceInvalid ent.level.string)))
  | none => []

/-- The time member, unless the time is zero. -/
def timeMembers (ent : Entry) : List (List UInt8 × Json.Value) :=
  if ent.time.IsZero then [] else keyed cfg.timeKey (elemValue rt cfg (.time ent.time))

/-- The logger name member, if the logger has a name. -/
def nameMembers (ent : Entry) : List (List UInt8 × Json.Value) :=
  if ent.loggerName = [] then []
  else
    keyed cfg.nameKey (callsValue rt ((cfg.encodeName.getD FullNameEncoder) ent.loggerName)
      (.str (replaceInvalid ent.loggerName)))

/-- The caller and function members of a defined caller. -/
def callerMembers (ent : Entry) : List (List UInt8 × Json.Value) :=
  if ent.caller.defined then
    (match cfg.encodeCaller with
      | some e =>
        keyed cfg.callerKey (callsValue rt (e ent.caller) (.str (replaceInvalid ent.caller.fullPath)))
      | none => []) ++
    keyed cfg.functionKey (.str (replaceInvalid ent.caller.function))
  else []

/-- The members `EncodeEntry` writes before the context. -/
def entryMembers (ent : Entry) : List (List UInt8 × Json.Value) :=
  levelMembers rt cfg ent ++ timeMembers rt cfg ent ++ nameMembers rt cfg ent ++
    callerMembers rt cfg ent ++ keyed cfg.messageKey (.str (replaceInvalid ent.message))

end Runtime

/-- The stack trace member, after the fields. -/
def stackMembers (cfg : EncoderConfig) (ent : Entry) : List (List UInt8 × Json.Value) :=
  if ent.stack = [] then [] else keyed cfg.stacktraceKey (.str (replaceInvalid ent.stack))

end JsonEncoder

end Lad
