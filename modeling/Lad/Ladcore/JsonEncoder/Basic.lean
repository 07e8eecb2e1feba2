import Lad.Ladcore.Field
import Lad.Ladcore.JsonEncoder.Escape

/-!
# The JSON encoder

`jsonEncoder` writes into one buffer and decides whether a comma is due from its last byte
(`addElementSeparator`). `AppendObject` closes the namespaces its marshaler opened, and
`EncodeEntry` splices the pre-encoded context after the entry's own members. The reflected
encoder holds nothing between uses, so `encodeReflected` is a function of the value.
-/

namespace Lad

open Go

/-- `jsonEncoder`. -/
@[ext] structure JsonEncoder where
  config : EncoderConfig
  buf : Buffer
  spaced : Bool
  openNamespaces : Nat

/-- `strconv.AppendBool`. -/
def boolText (v : Bool) : List UInt8 := if v then ascii "true" else ascii "false"

def trimNewline (bs : List UInt8) : List UInt8 :=
  if bs.getLast? = some 0x0A then bs.dropLast else bs

/-- The bytes after which `addElementSeparator` writes no comma: `{`, `[`, `:`, `,`, ` `. -/
def isOpenByte (c : UInt8) : Bool :=
  c == 0x7B || c == 0x5B || c == 0x3A || c == 0x2C || c == 0x20

/-- No comma is due after `bs`: it is empty or ends in an opening byte. -/
def NoSep (bs : List UInt8) : Bool :=
  match bs.getLast? with
  | none => true
  | some c => isOpenByte c

namespace JsonEncoder

/-- Apply a buffer operation. -/
def modifyBuf (f : Buffer → Buffer) (enc : JsonEncoder) : JsonEncoder := { enc with buf := f enc.buf }

def addElementSeparator (enc : JsonEncoder) : JsonEncoder :=
  match enc.buf.bs.getLast? with
  | none => enc
  | some c =>
    if isOpenByte c then enc
    else
      let enc := enc.modifyBuf (·.appendByte 0x2C)
      if enc.spaced then enc.modifyBuf (·.appendByte 0x20) else enc

def addKey (key : List UInt8) (enc : JsonEncoder) : JsonEncoder :=
  let enc := enc.addElementSeparator.modifyBuf fun b =>
    ((safeAddString (b.appendByte 0x22) key).appendByte 0x22).appendByte 0x3A
  if enc.spaced then enc.modifyBuf (·.appendByte 0x20) else enc

def appendString (val : List UInt8) (enc : JsonEncoder) : JsonEncoder :=
  enc.addElementSeparator.modifyBuf fun b => (safeAddString (b.appendByte 0x22) val).appendByte 0x22

def appendByteString (val : Array UInt8) (enc : JsonEncoder) : JsonEncoder :=
  enc.addElementSeparator.modifyBuf fun b =>
    (safeAddByteString (b.appendByte 0x22) val).appendByte 0x22

def appendBool (val : Bool) (enc : JsonEncoder) : JsonEncoder :=
  enc.addElementSeparator.modifyBuf (·.appendString (boolText val))

def appendInt64 (val : Int) (enc : JsonEncoder) : JsonEncoder :=
  enc.addElementSeparator.modifyBuf (·.appendString (Json.decimal val))

def appendUint64 (val : Nat) (enc : JsonEncoder) : JsonEncoder :=
  enc.addElementSeparator.modifyBuf (·.appendString (Json.decimal val))

section Runtime

variable (rt : Runtime)

/-- `appendFloat`: `NaN` and the infinities as strings, other values as numbers. -/
def appendFloat (val : UInt64) (bitSize : Nat) (enc : JsonEncoder) : JsonEncoder :=
  enc.addElementSeparator.modifyBuf fun b =>
    if isNaN val then b.appendString (ascii "\"NaN\"")
    else if isPosInf val then b.appendString (ascii "\"+Inf\"")
    else if isNegInf val then b.appendString (ascii "\"-Inf\"")
    else b.appendString (rt.appendFloat val bitSize)

/-- `appendComplex`: `"re+imi"`, with no sign of its own before a negative imaginary part. -/
def appendComplex (re im : UInt64) (precision : Nat) (enc : JsonEncoder) : JsonEncoder :=
  enc.addElementSeparator.modifyBuf fun b =>
    let b := (b.appendByte 0x22).appendString (rt.appendFloat re precision)
    let b := if geZero im then b.appendByte 0x2B else b
    ((b.appendString (rt.appendFloat im precision)).appendByte 0x69).appendByte 0x22

/-- `AppendTimeLayout`: the formatted time between quotation marks, not escaped. -/
def appendTimeLayout (t : Time) (layout : List UInt8) (enc : JsonEncoder) : JsonEncoder :=
  enc.addElementSeparator.modifyBuf fun b =>
    ((b.appendByte 0x22).appendString (rt.appendFormat t layout)).appendByte 0x22

/-- The methods of `PrimitiveArrayEncoder`. -/
def appendPrim : Prim → JsonEncoder → JsonEncoder
  | .bool b => appendBool b
  | .byteString v => appendByteString v
  | .complex128 re im => appendComplex rt re im 64
  | .complex64 re im => appendComplex rt (float64OfFloat32 re) (float64OfFloat32 im) 32
  | .float64 v => appendFloat rt v 64
  | .float32 v => appendFloat rt (float64OfFloat32 v) 32
  | .int64 v => appendInt64 v
  | .string s => appendString s
  | .uint64 v => appendUint64 v

/-- One call of a configurable encoder on the JSON encoder. -/
def runPrimCall : PrimCall → JsonEncoder → JsonEncoder
  | .append p => appendPrim rt p
  | .encodeTimeLayout t layout => appendTimeLayout rt t layout

/-- The calls of a configurable encoder, in order. -/
def runPrimCalls (calls : List PrimCall) (enc : JsonEncoder) : JsonEncoder :=
  calls.foldl (fun e c => runPrimCall rt c e) enc

/-- The pattern `cur := enc.buf.Len(); encoder(v, enc); if cur == enc.buf.Len() { fallback }`:
the configured encoder's calls, and the fallback if they wrote nothing. -/
def encodeOrElse (calls : List PrimCall) (fallback : JsonEncoder → JsonEncoder)
    (enc : JsonEncoder) : JsonEncoder :=
  let enc' := runPrimCalls rt calls enc
  if enc'.buf.bs.length = enc.buf.bs.length then fallback enc' else enc'

/-- `AppendDuration`: the `EncodeDuration`'s value, or the nanoseconds if it wrote nothing. -/
def appendDuration (val : Int) (enc : JsonEncoder) : JsonEncoder :=
  encodeOrElse rt ((enc.config.encodeDuration.map fun e => e val).getD []) (appendInt64 val) enc

/-- `AppendTime`: the `EncodeTime`'s value, or the nanoseconds since the epoch. -/
def appendTime (val : Time) (enc : JsonEncoder) : JsonEncoder :=
  encodeOrElse rt ((enc.config.encodeTime.map fun e => e val).getD []) (appendInt64 val.unixNano)
    enc

/-- The value methods of `ArrayEncoder`. -/
def appendElem : Elem → JsonEncoder → JsonEncoder
  | .prim p => appendPrim rt p
  | .duration d => appendDuration rt d
  | .time t => appendTime rt t

/-- `encodeReflected`: `null` for a nil value; otherwise what the reflected encoder writes,
without its final newline, or its error. `newJSONEncoder` installs `defaultReflectedEncoder`
when the configuration has none. -/
def encodeReflected (obj : Iface) (enc : JsonEncoder) : Except Err (List UInt8) :=
  match obj with
  | .nil => .ok (ascii "null")
  | _ =>
    match (enc.config.newReflectedEncoder.getD rt.jsonEncode) obj with
    | .error e => .error e
    | .ok bs => .ok (trimNewline bs)

/-- `AddReflected`: nothing is written when the reflected encoder fails. -/
def addReflected (key : List UInt8) (obj : Iface) (enc : JsonEncoder) :
    JsonEncoder × Option Err :=
  match encodeReflected rt obj enc with
  | .error e => (enc, some e)
  | .ok bs => ((enc.addKey key).modifyBuf (·.appendString bs), none)

def appendReflected (obj : Iface) (enc : JsonEncoder) : JsonEncoder × Option Err :=
  match encodeReflected rt obj enc with
  | .error e => (enc, some e)
  | .ok bs => (enc.addElementSeparator.modifyBuf (·.appendString bs), none)

end Runtime

def openNamespace (key : List UInt8) (enc : JsonEncoder) : JsonEncoder :=
  let enc := (enc.addKey key).modifyBuf (·.appendByte 0x7B)
  { enc with openNamespaces := enc.openNamespaces + 1 }

def closeOpenNamespaces (enc : JsonEncoder) : JsonEncoder :=
  { enc with buf := ⟨enc.buf.bs ++ List.replicate enc.openNamespaces 0x7D⟩, openNamespaces := 0 }

/-- `AppendObject`, around a run of the marshaler: the namespaces it opens are counted from
zero and closed after its closing brace. -/
def appendObject (marshal : JsonEncoder → JsonEncoder × Option Err) (enc : JsonEncoder) :
    JsonEncoder × Option Err :=
  let old := enc.openNamespaces
  let enc := ({ enc with openNamespaces := 0 }.addElementSeparator).modifyBuf (·.appendByte 0x7B)
  let r := marshal enc
  let enc := (r.1.modifyBuf (·.appendByte 0x7D)).closeOpenNamespaces
  ({ enc with openNamespaces := old }, r.2)

/-- `AppendArray`, around a run of the marshaler. -/
def appendArray (marshal : JsonEncoder → JsonEncoder × Option Err) (enc : JsonEncoder) :
    JsonEncoder × Option Err :=
  let r := marshal (enc.addElementSeparator.modifyBuf (·.appendByte 0x5B))
  (r.1.modifyBuf (·.appendByte 0x5D), r.2)

section Runtime

variable (rt : Runtime)

def addString (key val : List UInt8) (enc : JsonEncoder) : JsonEncoder :=
  (enc.addKey key).appendString val

mutual

/-- `m.MarshalLogObject(enc)` on the JSON encoder. -/
def marshalObject : ObjectMarshaler → JsonEncoder → JsonEncoder × Option Err
  | .ret err, enc => (enc, err)
  | .addArray key m k, enc =>
    let r := appendArray (fun e => marshalArray m e) (enc.addKey key)
    marshalObject (k r.2) r.1
  | .addObject key m k, enc =>
    let r := appendObject (fun e => marshalObject m e) (enc.addKey key)
    marshalObject (k r.2) r.1
  | .addBinary key v k, enc => marshalObject k (enc.addString key (rt.base64 v))
  | .add key v k, enc => marshalObject k (appendElem rt v (enc.addKey key))
  | .addReflected key v k, enc =>
    let r := addReflected rt key v enc
    marshalObject (k r.2) r.1
  | .openNamespace key k, enc => marshalObject k (enc.openNamespace key)

/-- `m.MarshalLogArray(enc)` on the JSON encoder. -/
def marshalArray : ArrayMarshaler → JsonEncoder → JsonEncoder × Option Err
  | .ret err, enc => (enc, err)
  | .appendArray m k, enc =>
    let r := appendArray (fun e => marshalArray m e) enc
    marshalArray (k r.2) r.1
  | .appendObject m k, enc =>
    let r := appendObject (fun e => marshalObject m e) enc
    marshalArray (k r.2) r.1
  | .append v k, enc => marshalArray k (appendElem rt v enc)
  | .appendReflected v k, enc =>
    let r := appendReflected rt v enc
    marshalArray (k r.2) r.1

end

/-- `addFields(enc, fields)` on the JSON encoder; `none` if a field's `AddTo` panics. -/
def addFields (fields : List Field) (enc : JsonEncoder) : Option JsonEncoder :=
  (Lad.addFields fields).map fun m => (marshalObject rt m enc).1

end Runtime

/-- `clone`: the configuration, the layout and the count of open namespaces, with a new,
empty buffer. -/
def clone (enc : JsonEncoder) : JsonEncoder := { enc with buf := ⟨[]⟩ }

/-- `Clone`: a clone holding a copy of the buffer. -/
def Clone (enc : JsonEncoder) : JsonEncoder := enc

end JsonEncoder

/-- `newJSONEncoder(cfg, spaced)`: the line ending is emptied or defaulted, and the default
reflected encoder installed. -/
def newJSONEncoder (rt : Runtime) (cfg : EncoderConfig) (spaced : Bool) : JsonEncoder where
  config :=
    { cfg with
      lineEnding :=
        if cfg.skipLineEnding then [] else if cfg.lineEnding = [] then DefaultLineEnding
        else cfg.lineEnding
      newReflectedEncoder := some (cfg.newReflectedEncoder.getD rt.jsonEncode) }
  buf := ⟨[]⟩
  spaced := spaced
  openNamespaces := 0

namespace JsonEncoder

section Runtime

variable (rt : Runtime)

/-- The level member of `EncodeEntry`, if there is a level key and a level encoder. -/
def entryLevel (ent : Entry) (final : JsonEncoder) : JsonEncoder :=
  match final.config.encodeLevel with
  | some e =>
    if final.config.levelKey ≠ [] then
      encodeOrElse rt (e ent.level) (appendString ent.level.string)
        (final.addKey final.config.levelKey)
    else final
  | none => final

/-- The time member, if there is a time key and the time is not zero. -/
def entryTime (ent : Entry) (final : JsonEncoder) : JsonEncoder :=
  if final.config.timeKey ≠ [] ∧ ¬ ent.time.IsZero then
    appendTime rt ent.time (final.addKey final.config.timeKey)
  else final

/-- The logger name member; a nil `EncodeName` falls back to `FullNameEncoder`. -/
def entryName (ent : Entry) (final : JsonEncoder) : JsonEncoder :=
  if ent.loggerName ≠ [] ∧ final.config.nameKey ≠ [] then
    encodeOrElse rt ((final.config.encodeName.getD FullNameEncoder) ent.loggerName)
      (appendString ent.loggerName) (final.addKey final.config.nameKey)
  else final

/-- The caller and function members of a defined caller. A nil `EncodeCaller` is called all
the same, and panics (`none`). -/
def entryCaller (ent : Entry) (final : JsonEncoder) : Option JsonEncoder := do
  if ent.caller.defined then
    let final ← if final.config.callerKey ≠ [] then
        match final.config.encodeCaller with
        | some e =>
          some (encodeOrElse rt (e ent.caller) (appendString ent.caller.fullPath)
            (final.addKey final.config.callerKey))
        | none => none
      else some final
    if final.config.functionKey ≠ [] then
      some ((final.addKey final.config.functionKey).appendString ent.caller.function)
    else some final
  else some final

/-- The message member; its key is read from the original encoder, which shares the
configuration. -/
def entryMessage (ent : Entry) (enc final : JsonEncoder) : JsonEncoder :=
  if final.config.messageKey ≠ [] then
    (final.addKey enc.config.messageKey).appendString ent.message
  else final

/-- The pre-encoded context, after a separator if one is due. -/
def entryContext (enc final : JsonEncoder) : JsonEncoder :=
  if enc.buf.bs.length > 0 then final.addElementSeparator.modifyBuf (·.appendString enc.buf.bs)
  else final

/-- The stack trace member, after the namespaces are closed. -/
def entryStack (ent : Entry) (final : JsonEncoder) : JsonEncoder :=
  if ent.stack ≠ [] ∧ final.config.stacktraceKey ≠ [] then
    final.addString final.config.stacktraceKey ent.stack
  else final

/-- `EncodeEntry`: the entry as one JSON object and the line ending, or `none` where it
panics. -/
def encodeEntry (enc : JsonEncoder) (ent : Entry) (fields : List Field) : Option Buffer := do
  let final := enc.clone.modifyBuf (·.appendByte 0x7B)
  let final := entryName rt ent (entryTime rt ent (entryLevel rt ent final))
  let final ← entryCaller rt ent final
  let final := entryContext enc (entryMessage ent enc final)
  let final ← addFields rt fields final
  let final := entryStack ent final.closeOpenNamespaces
  pure ((final.buf.appendByte 0x7D).appendString final.config.lineEnding)

end Runtime

end JsonEncoder

end Lad
