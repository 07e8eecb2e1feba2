import Lad.Ladcore.JsonEncoder.Basic

/-!
# The console encoder

`consoleEncoder` writes the metadata as plain text, then the message, then the context and the
fields as one JSON object from a spaced JSON encoder, then the stack trace on its own line.
-/

namespace Lad

open Go

/-- `consoleEncoder`: the JSON encoder it embeds, which holds the context. -/
structure ConsoleEncoder where
  json : JsonEncoder

/-- `NewConsoleEncoder(cfg)`: a tab separates the metadata unless another separator is set. -/
def NewConsoleEncoder (rt : Runtime) (cfg : EncoderConfig) : ConsoleEncoder :=
  let cfg := if cfg.consoleSeparator = [] then { cfg with consoleSeparator := ascii "\t" } else cfg
  ⟨newJSONEncoder rt cfg true⟩

/-- What `fmt.Fprint` writes for a value that a `PrimitiveArrayEncoder` method stored in a
`sliceArrayEncoder`; `AppendByteString` stores the bytes as a string. -/
def fprintPrim (rt : Runtime) : Prim → List UInt8
  | .bool b => boolText b
  | .byteString v => v.toList
  | .complex128 re im => rt.fprintComplex re im 128
  | .complex64 re im => rt.fprintComplex (float64OfFloat32 re) (float64OfFloat32 im) 64
  | .float64 v => rt.fprintFloat v 64
  | .float32 v => rt.fprintFloat (float64OfFloat32 v) 32
  | .int64 v => Json.decimal v
  | .string s => s
  | .uint64 v => Json.decimal v

/-- What `fmt.Fprint` writes for what a configured encoder's call stored; a
`sliceArrayEncoder` has no `AppendTimeLayout`, so `encodeTimeLayout` stores the formatted
time as a string. -/
def fprintCall (rt : Runtime) : PrimCall → List UInt8
  | .append p => fprintPrim rt p
  | .encodeTimeLayout t layout => rt.appendFormat t layout

namespace ConsoleEncoder

def Clone (c : ConsoleEncoder) : ConsoleEncoder := ⟨c.json.Clone⟩

/-- The calls the configured encoders make on the `sliceArrayEncoder` of `EncodeEntry`: the
time, the level, the logger name, the caller and the function, each only if its key is set and,
but for the name, its encoder is not nil. -/
def metadata (cfg : EncoderConfig) (ent : Entry) : List PrimCall :=
  (match cfg.encodeTime with
    | some f => if cfg.timeKey ≠ [] ∧ ¬ ent.time.IsZero then f ent.time else []
    | none => []) ++
  (match cfg.encodeLevel with
    | some f => if cfg.levelKey ≠ [] then f ent.level else []
    | none => []) ++
  -- a nil `EncodeName` falls back to `FullNameEncoder`
  (if ent.loggerName ≠ [] ∧ cfg.nameKey ≠ [] then
    (cfg.encodeName.getD FullNameEncoder) ent.loggerName else []) ++
  (if ent.caller.defined then
    (match cfg.encodeCaller with
      | some f => if cfg.callerKey ≠ [] then f ent.caller else []
      | none => []) ++
    (if cfg.functionKey ≠ [] then [.append (.string ent.caller.function)] else [])
  else [])

def addSeparatorIfNecessary (c : ConsoleEncoder) (line : Buffer) : Buffer :=
  if line.bs.length > 0 then line.appendString c.json.config.consoleSeparator else line

/-- `writeContext`: the fields added to a clone of the context, its namespaces closed, in
braces after a separator; nothing if that wrote nothing. -/
def writeContext (rt : Runtime) (c : ConsoleEncoder) (line : Buffer) (extra : List Field) :
    Option Buffer := do
  let context ← JsonEncoder.addFields rt extra c.json.Clone
  let context := context.closeOpenNamespaces
  if context.buf.bs.length = 0 then pure line
  else pure (((c.addSeparatorIfNecessary line).appendByte 0x7B).appendString context.buf.bs
    |>.appendByte 0x7D)

/-- `EncodeEntry`: the metadata, the message, the context and the fields, the stack trace and
the line ending; `none` where a field's `AddTo` panics. -/
def encodeEntry (rt : Runtime) (c : ConsoleEncoder) (ent : Entry) (fields : List Field) :
    Option Buffer := do
  let cfg := c.json.config
  let line : Buffer := ⟨cfg.consoleSeparator.intercalate ((metadata cfg ent).map (fprintCall rt))⟩
  let line := if cfg.messageKey ≠ [] then (c.addSeparatorIfNecessary line).appendString ent.message
    else line
  let line ← c.writeContext rt line fields
  -- without a stack trace key, the output stays on one line
  let line := if ent.stack ≠ [] ∧ cfg.stacktraceKey ≠ [] then
      (line.appendByte 0x0A).appendString ent.stack
    else line
  pure (line.appendString cfg.lineEnding)

end ConsoleEncoder

end Lad
