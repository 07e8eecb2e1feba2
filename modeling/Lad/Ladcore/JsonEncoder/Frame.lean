import Lad.Ladcore.JsonEncoder.Basic

/-!
# What the JSON encoder reads of its buffer

The encoder reads of its buffer only its last byte and how much a call made it grow, so a run
appends the same bytes after any prefix (`marshalObject_prepend`), and after something that wants
a separator writes one first (`marshalObject_after`).
-/

namespace Lad

open Go

namespace JsonEncoder

@[simp] theorem modifyBuf_config (f : Buffer → Buffer) (enc : JsonEncoder) :
    (enc.modifyBuf f).config = enc.config := rfl

@[simp] theorem modifyBuf_spaced (f : Buffer → Buffer) (enc : JsonEncoder) :
    (enc.modifyBuf f).spaced = enc.spaced := rfl

@[simp] theorem modifyBuf_openNamespaces (f : Buffer → Buffer) (enc : JsonEncoder) :
    (enc.modifyBuf f).openNamespaces = enc.openNamespaces := rfl

@[simp] theorem modifyBuf_buf (f : Buffer → Buffer) (enc : JsonEncoder) :
    (enc.modifyBuf f).buf = f enc.buf := rfl

/-- Append `X` to the buffer. -/
def write (X : List UInt8) (enc : JsonEncoder) : JsonEncoder :=
  enc.modifyBuf fun b => ⟨b.bs ++ X⟩

@[simp] theorem write_config (X : List UInt8) (enc : JsonEncoder) :
    (enc.write X).config = enc.config := rfl

@[simp] theorem write_spaced (X : List UInt8) (enc : JsonEncoder) :
    (enc.write X).spaced = enc.spaced := rfl

@[simp] theorem write_openNamespaces (X : List UInt8) (enc : JsonEncoder) :
    (enc.write X).openNamespaces = enc.openNamespaces := rfl

@[simp] theorem write_bs (X : List UInt8) (enc : JsonEncoder) :
    (enc.write X).buf.bs = enc.buf.bs ++ X := rfl

@[simp] theorem write_nil (enc : JsonEncoder) : enc.write [] = enc := by
  ext <;> simp

@[simp] theorem write_write (X Y : List UInt8) (enc : JsonEncoder) :
    (enc.write X).write Y = enc.write (X ++ Y) := by
  ext <;> simp

/-- The encoder with `P` in front of its buffer. -/
def prepend (P : List UInt8) (enc : JsonEncoder) : JsonEncoder :=
  enc.modifyBuf fun b => ⟨P ++ b.bs⟩

@[simp] theorem prepend_config (P : List UInt8) (enc : JsonEncoder) :
    (prepend P enc).config = enc.config := rfl

@[simp] theorem prepend_spaced (P : List UInt8) (enc : JsonEncoder) :
    (prepend P enc).spaced = enc.spaced := rfl

@[simp] theorem prepend_openNamespaces (P : List UInt8) (enc : JsonEncoder) :
    (prepend P enc).openNamespaces = enc.openNamespaces := rfl

@[simp] theorem prepend_bs (P : List UInt8) (enc : JsonEncoder) :
    (prepend P enc).buf.bs = P ++ enc.buf.bs := rfl

/-- The encoder with `n` open namespaces. -/
def setNamespaces (n : Nat) (enc : JsonEncoder) : JsonEncoder := { enc with openNamespaces := n }

@[simp] theorem setNamespaces_config (n : Nat) (enc : JsonEncoder) :
    (enc.setNamespaces n).config = enc.config := rfl

@[simp] theorem setNamespaces_spaced (n : Nat) (enc : JsonEncoder) :
    (enc.setNamespaces n).spaced = enc.spaced := rfl

@[simp] theorem setNamespaces_openNamespaces (n : Nat) (enc : JsonEncoder) :
    (enc.setNamespaces n).openNamespaces = n := rfl

@[simp] theorem setNamespaces_bs (n : Nat) (enc : JsonEncoder) :
    (enc.setNamespaces n).buf.bs = enc.buf.bs := rfl

theorem prepend_setNamespaces (P : List UInt8) (n : Nat) (enc : JsonEncoder) :
    (prepend P enc).setNamespaces n = prepend P (enc.setNamespaces n) := rfl

theorem write_prepend (P X : List UInt8) (enc : JsonEncoder) :
    (prepend P enc).write X = prepend P (enc.write X) := by
  ext <;> simp

@[simp] theorem NoSep_nil : NoSep [] = true := rfl

theorem NoSep_append {bs X : List UInt8} (h : X ≠ []) : NoSep (bs ++ X) = NoSep X := by
  simp only [NoSep, List.getLast?_append, List.getLast?_eq_some_getLast h]
  rfl

theorem NoSep_prepend (P : List UInt8) (enc : JsonEncoder) (h : enc.buf.bs ≠ []) :
    NoSep (prepend P enc).buf.bs = NoSep enc.buf.bs := by
  rw [prepend_bs, NoSep_append h]

/-! ### What each method appends -/

/-- What `addKey` writes after the separator: the escaped key, quoted, and the colon. -/
def keyText (spaced : Bool) (key : List UInt8) : List UInt8 :=
  0x22 :: (escaped key ++ 0x22 :: Json.colonText spaced)

/-- A string literal with the given body. -/
def quoted (body : List UInt8) : List UInt8 := 0x22 :: (body ++ [0x22])

section Runtime

variable (rt : Runtime)

/-- What `appendFloat` writes after the separator. -/
def floatText (v : UInt64) (bitSize : Nat) : List UInt8 :=
  if isNaN v then ascii "\"NaN\""
  else if isPosInf v then ascii "\"+Inf\""
  else if isNegInf v then ascii "\"-Inf\""
  else rt.appendFloat v bitSize

/-- The body of the string `appendComplex` writes: the real part, a plus sign unless the
imaginary part brings its own minus sign, the imaginary part and `i`. -/
def complexBody (re im : UInt64) (precision : Nat) : List UInt8 :=
  rt.appendFloat re precision ++ (if geZero im then [0x2B] else []) ++
    rt.appendFloat im precision ++ [0x69]

/-- What `appendComplex` writes after the separator. -/
def complexText (re im : UInt64) (precision : Nat) : List UInt8 :=
  quoted (complexBody rt re im precision)

/-- What a method of `PrimitiveArrayEncoder` writes after the separator. -/
def primText : Prim → List UInt8
  | .bool b => boolText b
  | .byteString v => quoted (escaped v.toList)
  | .complex128 re im => complexText rt re im 64
  | .complex64 re im => complexText rt (float64OfFloat32 re) (float64OfFloat32 im) 32
  | .float64 v => floatText rt v 64
  | .float32 v => floatText rt (float64OfFloat32 v) 32
  | .int64 v => Json.decimal v
  | .string s => quoted (escaped s)
  | .uint64 v => Json.decimal v

/-- What a call of a configurable encoder writes after the separator. -/
def primCallText : PrimCall → List UInt8
  | .append p => primText rt p
  | .encodeTimeLayout t layout => quoted (rt.appendFormat t layout)

end Runtime

theorem addElementSeparator_eq (enc : JsonEncoder) :
    enc.addElementSeparator = enc.write (Json.sepText (NoSep enc.buf.bs) enc.spaced) := by
  unfold addElementSeparator NoSep
  cases h : enc.buf.bs.getLast? with
  | none => simp [Json.sepText]
  | some c =>
    cases hc : isOpenByte c
    · cases hs : enc.spaced <;> ext <;>
        simp [Json.sepText, write, modifyBuf, Buffer.appendByte, hs, hc]
    · simp [Json.sepText, hc]

theorem addKey_eq (key : List UInt8) (enc : JsonEncoder) :
    enc.addKey key =
      enc.write (Json.sepText (NoSep enc.buf.bs) enc.spaced ++ keyText enc.spaced key) := by
  unfold addKey
  rw [addElementSeparator_eq]
  cases hs : enc.spaced <;> ext <;>
    simp [write, modifyBuf, Buffer.appendByte, safeAddString_bs, keyText, Json.colonText, hs]

theorem appendString_eq (val : List UInt8) (enc : JsonEncoder) :
    enc.appendString val =
      enc.write (Json.sepText (NoSep enc.buf.bs) enc.spaced ++ quoted (escaped val)) := by
  unfold appendString
  rw [addElementSeparator_eq]
  ext <;> simp [write, modifyBuf, Buffer.appendByte, safeAddString_bs, quoted]

theorem appendByteString_eq (val : Array UInt8) (enc : JsonEncoder) :
    enc.appendByteString val =
      enc.write (Json.sepText (NoSep enc.buf.bs) enc.spaced ++ quoted (escaped val.toList)) := by
  unfold appendByteString
  rw [addElementSeparator_eq]
  ext <;> simp [write, modifyBuf, Buffer.appendByte, safeAddByteString_bs, quoted]

theorem appendBool_eq (val : Bool) (enc : JsonEncoder) :
    enc.appendBool val = enc.write (Json.sepText (NoSep enc.buf.bs) enc.spaced ++ boolText val) := by
  unfold appendBool
  rw [addElementSeparator_eq]
  ext <;> simp [write, modifyBuf, Buffer.appendString]

theorem appendInt64_eq (val : Int) (enc : JsonEncoder) :
    enc.appendInt64 val =
      enc.write (Json.sepText (NoSep enc.buf.bs) enc.spaced ++ Json.decimal val) := by
  unfold appendInt64
  rw [addElementSeparator_eq]
  ext <;> simp [write, modifyBuf, Buffer.appendString]

theorem appendUint64_eq (val : Nat) (enc : JsonEncoder) :
    enc.appendUint64 val =
      enc.write (Json.sepText (NoSep enc.buf.bs) enc.spaced ++ Json.decimal val) := by
  unfold appendUint64
  rw [addElementSeparator_eq]
  ext <;> simp [write, modifyBuf, Buffer.appendString]

section Runtime

variable (rt : Runtime)

theorem appendFloat_eq (val : UInt64) (bitSize : Nat) (enc : JsonEncoder) :
    appendFloat rt val bitSize enc =
      enc.write (Json.sepText (NoSep enc.buf.bs) enc.spaced ++ floatText rt val bitSize) := by
  unfold appendFloat floatText
  rw [addElementSeparator_eq]
  by_cases h1 : isNaN val <;> by_cases h2 : isPosInf val <;> by_cases h3 : isNegInf val <;>
    ext <;> simp [write, modifyBuf, Buffer.appendString, h1, h2, h3]

theorem appendComplex_eq (re im : UInt64) (precision : Nat) (enc : JsonEncoder) :
    appendComplex rt re im precision enc =
      enc.write (Json.sepText (NoSep enc.buf.bs) enc.spaced ++ complexText rt re im precision) := by
  unfold appendComplex complexText complexBody
  rw [addElementSeparator_eq]
  by_cases h : geZero im <;>
    ext <;> simp [write, modifyBuf, Buffer.appendString, Buffer.appendByte, quoted, h]

theorem appendTimeLayout_eq (t : Time) (layout : List UInt8) (enc : JsonEncoder) :
    appendTimeLayout rt t layout enc =
      enc.write (Json.sepText (NoSep enc.buf.bs) enc.spaced ++ quoted (rt.appendFormat t layout)) := by
  unfold appendTimeLayout
  rw [addElementSeparator_eq]
  ext <;> simp [write, modifyBuf, Buffer.appendString, Buffer.appendByte, quoted]

theorem appendPrim_eq (p : Prim) (enc : JsonEncoder) :
    appendPrim rt p enc =
      enc.write (Json.sepText (NoSep enc.buf.bs) enc.spaced ++ primText rt p) := by
  cases p with
  | bool b => exact appendBool_eq b enc
  | byteString v => exact appendByteString_eq v enc
  | complex128 re im => exact appendComplex_eq rt re im 64 enc
  | complex64 re im => exact appendComplex_eq rt _ _ 32 enc
  | float64 v => exact appendFloat_eq rt v 64 enc
  | float32 v => exact appendFloat_eq rt _ 32 enc
  | int64 v => exact appendInt64_eq v enc
  | string s => exact appendString_eq s enc
  | uint64 v => exact appendUint64_eq v enc

theorem runPrimCall_eq (c : PrimCall) (enc : JsonEncoder) :
    runPrimCall rt c enc =
      enc.write (Json.sepText (NoSep enc.buf.bs) enc.spaced ++ primCallText rt c) := by
  cases c with
  | append p => exact appendPrim_eq rt p enc
  | encodeTimeLayout t layout => exact appendTimeLayout_eq rt t layout enc

/-- Whether a separator is due after `X` is written where the state was `f`. -/
def sepAfter (f : Bool) (X : List UInt8) : Bool := if X = [] then f else NoSep X

theorem NoSep_write (X : List UInt8) (enc : JsonEncoder) :
    NoSep (enc.write X).buf.bs = sepAfter (NoSep enc.buf.bs) X := by
  unfold sepAfter
  split_ifs with h
  · simp [h]
  · rw [write_bs, NoSep_append h]

/-- What the calls of a configurable encoder write, from the separator state `f` on. -/
def callsText (spaced : Bool) : Bool → List PrimCall → List UInt8
  | _, [] => []
  | f, c :: cs =>
    Json.sepText f spaced ++ primCallText rt c ++
      callsText spaced (sepAfter f (Json.sepText f spaced ++ primCallText rt c)) cs

theorem runPrimCalls_eq (calls : List PrimCall) (enc : JsonEncoder) :
    runPrimCalls rt calls enc =
      enc.write (callsText rt enc.spaced (NoSep enc.buf.bs) calls) := by
  induction calls generalizing enc with
  | nil => simp [runPrimCalls, callsText]
  | cons c cs ih =>
    have h := ih (runPrimCall rt c enc)
    simp only [runPrimCalls, List.foldl_cons] at h ⊢
    rw [h, runPrimCall_eq, NoSep_write, write_spaced, write_write, callsText]

/-- The fallback's text when the configured encoder wrote nothing. -/
def fallbackText (T fb : List UInt8) : List UInt8 := if T = [] then fb else T

theorem encodeOrElse_eq (calls : List PrimCall) {fallback : JsonEncoder → JsonEncoder}
    {F : List UInt8} (hfb : ∀ e, fallback e = e.write (Json.sepText (NoSep e.buf.bs) e.spaced ++ F))
    (enc : JsonEncoder) :
    encodeOrElse rt calls fallback enc =
      enc.write (fallbackText (callsText rt enc.spaced (NoSep enc.buf.bs) calls)
        (Json.sepText (NoSep enc.buf.bs) enc.spaced ++ F)) := by
  unfold encodeOrElse fallbackText
  rw [runPrimCalls_eq]
  by_cases hT : callsText rt enc.spaced (NoSep enc.buf.bs) calls = []
  · simp [hT, hfb]
  · simp [hT]

/-- What `AppendDuration` writes. -/
def durationText (cfg : EncoderConfig) (spaced f : Bool) (d : Int) : List UInt8 :=
  fallbackText (callsText rt spaced f ((cfg.encodeDuration.map fun e => e d).getD []))
    (Json.sepText f spaced ++ Json.decimal d)

/-- What `AppendTime` writes. -/
def timeText (cfg : EncoderConfig) (spaced f : Bool) (t : Time) : List UInt8 :=
  fallbackText (callsText rt spaced f ((cfg.encodeTime.map fun e => e t).getD []))
    (Json.sepText f spaced ++ Json.decimal t.unixNano)

/-- What a value method of `ArrayEncoder` writes, separator included. -/
def elemText (cfg : EncoderConfig) (spaced f : Bool) : Elem → List UInt8
  | .prim p => Json.sepText f spaced ++ primText rt p
  | .duration d => durationText rt cfg spaced f d
  | .time t => timeText rt cfg spaced f t

theorem appendElem_eq (v : Elem) (enc : JsonEncoder) :
    appendElem rt v enc = enc.write (elemText rt enc.config enc.spaced (NoSep enc.buf.bs) v) := by
  cases v with
  | prim p => exact appendPrim_eq rt p enc
  | duration d => exact encodeOrElse_eq rt _ (appendInt64_eq d) enc
  | time t => exact encodeOrElse_eq rt _ (appendInt64_eq _) enc

theorem addReflected_eq (key : List UInt8) (obj : Iface) (enc : JsonEncoder) :
    addReflected rt key obj enc =
      match encodeReflected rt obj enc with
      | .error e => (enc, some e)
      | .ok bs =>
        (enc.write (Json.sepText (NoSep enc.buf.bs) enc.spaced ++ keyText enc.spaced key ++ bs),
          none) := by
  unfold addReflected
  cases encodeReflected rt obj enc with
  | error e => rfl
  | ok bs =>
    simp only [addKey_eq]
    ext <;> simp [write, modifyBuf, Buffer.appendString]

theorem appendReflected_eq (obj : Iface) (enc : JsonEncoder) :
    appendReflected rt obj enc =
      match encodeReflected rt obj enc with
      | .error e => (enc, some e)
      | .ok bs => (enc.write (Json.sepText (NoSep enc.buf.bs) enc.spaced ++ bs), none) := by
  unfold appendReflected
  cases encodeReflected rt obj enc with
  | error e => rfl
  | ok bs =>
    simp only [addElementSeparator_eq]
    ext <;> simp [write, modifyBuf, Buffer.appendString]

/-- The reflected encoder does not look at the buffer. -/
theorem encodeReflected_prepend (obj : Iface) (P : List UInt8) (enc : JsonEncoder) :
    encodeReflected rt obj (prepend P enc) = encodeReflected rt obj enc := rfl

theorem encodeReflected_write (obj : Iface) (X : List UInt8) (enc : JsonEncoder) :
    encodeReflected rt obj (enc.write X) = encodeReflected rt obj enc := rfl

end Runtime

theorem openNamespace_eq (key : List UInt8) (enc : JsonEncoder) :
    enc.openNamespace key =
      (enc.write (Json.sepText (NoSep enc.buf.bs) enc.spaced ++ keyText enc.spaced key ++ [0x7B])
        ).setNamespaces (enc.openNamespaces + 1) := by
  unfold openNamespace
  rw [addKey_eq]
  ext <;> simp [write, modifyBuf, setNamespaces, Buffer.appendByte]

theorem appendObject_eq (run : JsonEncoder → JsonEncoder × Option Err) (enc : JsonEncoder) :
    appendObject run enc =
      let r := run ((enc.setNamespaces 0).write
        (Json.sepText (NoSep enc.buf.bs) enc.spaced ++ [0x7B]))
      ((r.1.write (0x7D :: List.replicate r.1.openNamespaces 0x7D)).setNamespaces
          enc.openNamespaces, r.2) := by
  unfold appendObject closeOpenNamespaces
  rw [addElementSeparator_eq]
  ext <;> simp [write, modifyBuf, setNamespaces, Buffer.appendByte]

theorem appendArray_eq (run : JsonEncoder → JsonEncoder × Option Err) (enc : JsonEncoder) :
    appendArray run enc =
      let r := run (enc.write (Json.sepText (NoSep enc.buf.bs) enc.spaced ++ [0x5B]))
      (r.1.write [0x5D], r.2) := by
  unfold appendArray
  rw [addElementSeparator_eq]
  ext <;> simp [write, modifyBuf, Buffer.appendByte]

theorem addKey_ne_nil (key : List UInt8) (enc : JsonEncoder) : (enc.addKey key).buf.bs ≠ [] := by
  simp [addKey_eq, keyText]

/-! ### Runs only append -/

/-- `e'` is `e` after more writes: the configuration and the layout are kept and the buffer
only grows. -/
structure Grows (e e' : JsonEncoder) : Prop where
  config : e'.config = e.config
  spaced : e'.spaced = e.spaced
  buf : e.buf.bs <+: e'.buf.bs

theorem Grows.refl (e : JsonEncoder) : Grows e e := ⟨rfl, rfl, List.prefix_refl _⟩

theorem Grows.trans {a b c : JsonEncoder} (h₁ : Grows a b) (h₂ : Grows b c) : Grows a c :=
  ⟨h₂.config.trans h₁.config, h₂.spaced.trans h₁.spaced, h₁.buf.trans h₂.buf⟩

theorem Grows.write {e e' : JsonEncoder} (h : Grows e e') (X : List UInt8) :
    Grows e (e'.write X) :=
  ⟨h.config, h.spaced, h.buf.trans (List.prefix_append _ _)⟩

theorem Grows.setNamespaces {e e' : JsonEncoder} (h : Grows e e') (n : Nat) :
    Grows e (e'.setNamespaces n) :=
  ⟨h.config, h.spaced, h.buf⟩

theorem Grows.ne_nil {e e' : JsonEncoder} (h : Grows e e') (hne : e.buf.bs ≠ []) :
    e'.buf.bs ≠ [] := by
  obtain ⟨T, hT⟩ := h.buf
  rw [← hT]
  simp [hne]

theorem grows_write (X : List UInt8) (e : JsonEncoder) : Grows e (e.write X) :=
  (Grows.refl e).write X

theorem addKey_grows (key : List UInt8) (e : JsonEncoder) : Grows e (e.addKey key) := by
  rw [addKey_eq]
  exact grows_write _ e

theorem appendObject_grows {run : JsonEncoder → JsonEncoder × Option Err}
    (hrun : ∀ e, Grows e (run e).1) (enc : JsonEncoder) : Grows enc (appendObject run enc).1 := by
  rw [appendObject_eq]
  exact (((Grows.refl enc).setNamespaces 0).write _ |>.trans (hrun _)).write _ |>.setNamespaces _

theorem appendArray_grows {run : JsonEncoder → JsonEncoder × Option Err}
    (hrun : ∀ e, Grows e (run e).1) (enc : JsonEncoder) : Grows enc (appendArray run enc).1 := by
  rw [appendArray_eq]
  exact ((grows_write _ enc).trans (hrun _)).write _

section Runtime

variable (rt : Runtime)

theorem appendElem_grows (v : Elem) (e : JsonEncoder) : Grows e (appendElem rt v e) := by
  rw [appendElem_eq]
  exact grows_write _ e

theorem addReflected_grows (key : List UInt8) (v : Iface) (e : JsonEncoder) :
    Grows e (addReflected rt key v e).1 := by
  rw [addReflected_eq]
  split
  · exact Grows.refl e
  · exact grows_write _ e

theorem appendReflected_grows (v : Iface) (e : JsonEncoder) :
    Grows e (appendReflected rt v e).1 := by
  rw [appendReflected_eq]
  split
  · exact Grows.refl e
  · exact grows_write _ e

mutual

/-- A marshaler only appends to the buffer, and keeps the configuration and the layout. -/
theorem marshalObject_grows : ∀ (m : ObjectMarshaler) (enc : JsonEncoder),
    Grows enc (marshalObject rt m enc).1
  | .ret _, enc => Grows.refl enc
  | .addArray key m k, enc =>
    (addKey_grows key enc).trans <|
      (appendArray_grows (marshalArray_grows m) _).trans (marshalObject_grows (k _) _)
  | .addObject key m k, enc =>
    (addKey_grows key enc).trans <|
      (appendObject_grows (marshalObject_grows m) _).trans (marshalObject_grows (k _) _)
  | .addBinary key v k, enc => by
    simp only [marshalObject, addString, appendString_eq]
    exact ((addKey_grows key enc).write _).trans (marshalObject_grows k _)
  | .add key v k, enc =>
    ((addKey_grows key enc).trans (appendElem_grows rt v _)).trans (marshalObject_grows k _)
  | .addReflected key v k, enc =>
    (addReflected_grows rt key v enc).trans (marshalObject_grows (k _) _)
  | .openNamespace key k, enc => by
    simp only [marshalObject, openNamespace_eq]
    exact ((grows_write _ enc).setNamespaces _).trans (marshalObject_grows k _)

theorem marshalArray_grows : ∀ (m : ArrayMarshaler) (enc : JsonEncoder),
    Grows enc (marshalArray rt m enc).1
  | .ret _, enc => Grows.refl enc
  | .appendArray m k, enc =>
    (appendArray_grows (marshalArray_grows m) enc).trans (marshalArray_grows (k _) _)
  | .appendObject m k, enc =>
    (appendObject_grows (marshalObject_grows m) enc).trans (marshalArray_grows (k _) _)
  | .append v k, enc => (appendElem_grows rt v enc).trans (marshalArray_grows k _)
  | .appendReflected v k, enc =>
    (appendReflected_grows rt v enc).trans (marshalArray_grows (k _) _)

end

end Runtime

/-! ### A prefix before a non-empty buffer is never read -/

/-- An operation that appends what the separator state, the configuration and the layout
decide commutes with a prefix before a buffer that is not empty. -/
theorem prepend_comm {g : JsonEncoder → JsonEncoder} (T : EncoderConfig → Bool → Bool → List UInt8)
    (hg : ∀ e, g e = e.write (T e.config e.spaced (NoSep e.buf.bs))) (P : List UInt8)
    {enc : JsonEncoder} (h : enc.buf.bs ≠ []) : g (prepend P enc) = prepend P (g enc) := by
  rw [hg, hg, NoSep_prepend P enc h, prepend_config, prepend_spaced, write_prepend]

theorem addKey_prepend (P key : List UInt8) {enc : JsonEncoder} (h : enc.buf.bs ≠ []) :
    (prepend P enc).addKey key = prepend P (enc.addKey key) :=
  prepend_comm (g := (·.addKey key)) (fun _ sp f => Json.sepText f sp ++ keyText sp key)
    (addKey_eq key) P h

theorem appendString_prepend (P val : List UInt8) {enc : JsonEncoder} (h : enc.buf.bs ≠ []) :
    (prepend P enc).appendString val = prepend P (enc.appendString val) :=
  prepend_comm (g := (·.appendString val)) (fun _ sp f => Json.sepText f sp ++ quoted (escaped val))
    (appendString_eq val) P h

theorem openNamespace_prepend (P key : List UInt8) {enc : JsonEncoder} (h : enc.buf.bs ≠ []) :
    (prepend P enc).openNamespace key = prepend P (enc.openNamespace key) := by
  rw [openNamespace_eq, openNamespace_eq, NoSep_prepend P enc h]
  ext <;> simp

theorem appendObject_prepend (P : List UInt8) {run : JsonEncoder → JsonEncoder × Option Err}
    (hrun : ∀ e, e.buf.bs ≠ [] → run (prepend P e) = Prod.map (prepend P) id (run e))
    {enc : JsonEncoder} (h : enc.buf.bs ≠ []) :
    appendObject run (prepend P enc) = Prod.map (prepend P) id (appendObject run enc) := by
  rw [appendObject_eq, appendObject_eq, NoSep_prepend P enc h, prepend_spaced,
    prepend_setNamespaces, write_prepend, hrun _ (by simp)]
  ext <;> simp

theorem appendArray_prepend (P : List UInt8) {run : JsonEncoder → JsonEncoder × Option Err}
    (hrun : ∀ e, e.buf.bs ≠ [] → run (prepend P e) = Prod.map (prepend P) id (run e))
    {enc : JsonEncoder} (h : enc.buf.bs ≠ []) :
    appendArray run (prepend P enc) = Prod.map (prepend P) id (appendArray run enc) := by
  rw [appendArray_eq, appendArray_eq, NoSep_prepend P enc h, prepend_spaced, write_prepend,
    hrun _ (by simp)]
  ext <;> simp [write_prepend]

section Runtime

variable (rt : Runtime)

theorem appendElem_prepend (P : List UInt8) (v : Elem) {enc : JsonEncoder}
    (h : enc.buf.bs ≠ []) : appendElem rt v (prepend P enc) = prepend P (appendElem rt v enc) :=
  prepend_comm (g := appendElem rt v) (fun c sp f => elemText rt c sp f v) (appendElem_eq rt v) P h

theorem addReflected_prepend (P key : List UInt8) (v : Iface) {enc : JsonEncoder}
    (h : enc.buf.bs ≠ []) :
    addReflected rt key v (prepend P enc) = Prod.map (prepend P) id (addReflected rt key v enc) := by
  rw [addReflected_eq, addReflected_eq, NoSep_prepend P enc h, encodeReflected_prepend]
  cases encodeReflected rt v enc <;> ext <;> simp

theorem appendReflected_prepend (P : List UInt8) (v : Iface) {enc : JsonEncoder}
    (h : enc.buf.bs ≠ []) :
    appendReflected rt v (prepend P enc) = Prod.map (prepend P) id (appendReflected rt v enc) := by
  rw [appendReflected_eq, appendReflected_eq, NoSep_prepend P enc h, encodeReflected_prepend]
  cases encodeReflected rt v enc <;> ext <;> simp

mutual

/-- A run of a marshaler on a buffer that is not empty does not depend on what comes before
its last byte. -/
theorem marshalObject_prepend (P : List UInt8) : ∀ (m : ObjectMarshaler) (enc : JsonEncoder),
    enc.buf.bs ≠ [] →
      marshalObject rt m (prepend P enc) = Prod.map (prepend P) id (marshalObject rt m enc)
  | .ret _, _, _ => rfl
  | .addArray key m k, enc, h => by
    have hk := addKey_ne_nil key enc
    simp only [marshalObject]
    rw [addKey_prepend P key h, appendArray_prepend P (marshalArray_prepend P m) hk,
      Prod.map_fst, Prod.map_snd, id]
    exact marshalObject_prepend P (k _) _ ((appendArray_grows (marshalArray_grows rt m) _).ne_nil hk)
  | .addObject key m k, enc, h => by
    have hk := addKey_ne_nil key enc
    simp only [marshalObject]
    rw [addKey_prepend P key h, appendObject_prepend P (marshalObject_prepend P m) hk,
      Prod.map_fst, Prod.map_snd, id]
    exact marshalObject_prepend P (k _) _
      ((appendObject_grows (marshalObject_grows rt m) _).ne_nil hk)
  | .addBinary key v k, enc, h => by
    have hk := addKey_ne_nil key enc
    simp only [marshalObject, addString]
    rw [addKey_prepend P key h, appendString_prepend P _ hk]
    refine marshalObject_prepend P k _ ?_
    rw [appendString_eq]
    exact (grows_write _ _).ne_nil hk
  | .add key v k, enc, h => by
    have hk := addKey_ne_nil key enc
    simp only [marshalObject]
    rw [addKey_prepend P key h, appendElem_prepend rt P v hk]
    exact marshalObject_prepend P k _ ((appendElem_grows rt v _).ne_nil hk)
  | .addReflected key v k, enc, h => by
    simp only [marshalObject]
    rw [addReflected_prepend rt P key v h, Prod.map_fst, Prod.map_snd, id]
    exact marshalObject_prepend P (k _) _ ((addReflected_grows rt key v enc).ne_nil h)
  | .openNamespace key k, enc, h => by
    simp only [marshalObject]
    rw [openNamespace_prepend P key h]
    refine marshalObject_prepend P k _ ?_
    rw [openNamespace_eq]
    exact (grows_write _ enc).ne_nil h

theorem marshalArray_prepend (P : List UInt8) : ∀ (m : ArrayMarshaler) (enc : JsonEncoder),
    enc.buf.bs ≠ [] →
      marshalArray rt m (prepend P enc) = Prod.map (prepend P) id (marshalArray rt m enc)
  | .ret _, _, _ => rfl
  | .appendArray m k, enc, h => by
    simp only [marshalArray]
    rw [appendArray_prepend P (marshalArray_prepend P m) h, Prod.map_fst, Prod.map_snd, id]
    exact marshalArray_prepend P (k _) _ ((appendArray_grows (marshalArray_grows rt m) _).ne_nil h)
  | .appendObject m k, enc, h => by
    simp only [marshalArray]
    rw [appendObject_prepend P (marshalObject_prepend P m) h, Prod.map_fst, Prod.map_snd, id]
    exact marshalArray_prepend P (k _) _
      ((appendObject_grows (marshalObject_grows rt m) _).ne_nil h)
  | .append v k, enc, h => by
    simp only [marshalArray]
    rw [appendElem_prepend rt P v h]
    exact marshalArray_prepend P k _ ((appendElem_grows rt v _).ne_nil h)
  | .appendReflected v k, enc, h => by
    simp only [marshalArray]
    rw [appendReflected_prepend rt P v h, Prod.map_fst, Prod.map_snd, id]
    exact marshalArray_prepend P (k _) _ ((appendReflected_grows rt v enc).ne_nil h)

end

end Runtime

/-! ### A run after other members -/

theorem addKey_after (key B : List UInt8) {enc : JsonEncoder} (h : enc.buf.bs = []) :
    (enc.write B).addKey key = prepend (B ++ Json.sepText (NoSep B) enc.spaced) (enc.addKey key) := by
  have hs : Json.sepText true enc.spaced = [] := rfl
  rw [addKey_eq, addKey_eq, write_bs, h, List.nil_append, NoSep_nil, hs]
  ext <;> simp [h]

/-- What a run that starts with `addKey` writes after `B` is the separator and what it writes
on an empty buffer. -/
theorem run_after_addKey {F : JsonEncoder → JsonEncoder × Option Err}
    (hF : ∀ P e, e.buf.bs ≠ [] → F (prepend P e) = Prod.map (prepend P) id (F e))
    (hg : ∀ e, Grows e (F e).1) (key B : List UInt8) {enc : JsonEncoder} (h : enc.buf.bs = []) :
    F ((enc.write B).addKey key) =
      Prod.map (prepend (if (F (enc.addKey key)).1.buf.bs = [] then B
        else B ++ Json.sepText (NoSep B) enc.spaced)) id (F (enc.addKey key)) := by
  have hne := (hg (enc.addKey key)).ne_nil (addKey_ne_nil key enc)
  rw [addKey_after key B h, hF _ _ (addKey_ne_nil key enc), if_neg hne]

section Runtime

variable (rt : Runtime)

/-- Running a marshaler after the bytes `B` writes a separator, if `B` wants one and the
marshaler writes anything, and then what it writes on an empty buffer. -/
theorem marshalObject_after (B : List UInt8) : ∀ (m : ObjectMarshaler) (enc : JsonEncoder),
    enc.buf.bs = [] →
      marshalObject rt m (enc.write B) =
        Prod.map (prepend (if (marshalObject rt m enc).1.buf.bs = [] then B
          else B ++ Json.sepText (NoSep B) enc.spaced)) id (marshalObject rt m enc)
  | .ret _, enc, h => by
    simp only [marshalObject]
    ext <;> simp [h]
  | .addArray key m k, enc, h =>
    run_after_addKey
      (F := fun e => marshalObject rt (k (appendArray (marshalArray rt m) e).2)
        (appendArray (marshalArray rt m) e).1)
      (fun P e he => by
        rw [appendArray_prepend P (marshalArray_prepend rt P m) he, Prod.map_fst, Prod.map_snd,
          id, marshalObject_prepend rt P _ _
            ((appendArray_grows (marshalArray_grows rt m) e).ne_nil he)])
      (fun e => (appendArray_grows (marshalArray_grows rt m) e).trans (marshalObject_grows rt _ _))
      key B h
  | .addObject key m k, enc, h =>
    run_after_addKey
      (F := fun e => marshalObject rt (k (appendObject (marshalObject rt m) e).2)
        (appendObject (marshalObject rt m) e).1)
      (fun P e he => by
        rw [appendObject_prepend P (marshalObject_prepend rt P m) he, Prod.map_fst, Prod.map_snd,
          id, marshalObject_prepend rt P _ _
            ((appendObject_grows (marshalObject_grows rt m) e).ne_nil he)])
      (fun e => (appendObject_grows (marshalObject_grows rt m) e).trans (marshalObject_grows rt _ _))
      key B h
  | .addBinary key v k, enc, h =>
    run_after_addKey (F := fun e => marshalObject rt k (e.appendString (rt.base64 v)))
      (fun P e he => by
        rw [appendString_prepend P _ he, appendString_eq,
          marshalObject_prepend rt P _ _ ((grows_write _ e).ne_nil he)])
      (fun e => by
        rw [appendString_eq]
        exact (grows_write _ e).trans (marshalObject_grows rt _ _))
      key B h
  | .add key v k, enc, h =>
    run_after_addKey (F := fun e => marshalObject rt k (appendElem rt v e))
      (fun P e he => by
        rw [appendElem_prepend rt P v he,
          marshalObject_prepend rt P _ _ ((appendElem_grows rt v e).ne_nil he)])
      (fun e => (appendElem_grows rt v e).trans (marshalObject_grows rt _ _))
      key B h
  | .addReflected key v k, enc, h => by
    simp only [marshalObject, addReflected_eq, encodeReflected_write]
    cases encodeReflected rt v enc with
    | error e => exact marshalObject_after B (k (some e)) enc h
    | ok bs =>
      -- the reflected member is a key and a text, as `add` is a key and a value
      have hw : ∀ e : JsonEncoder,
          e.write (Json.sepText (NoSep e.buf.bs) e.spaced ++ keyText e.spaced key ++ bs) =
            (e.addKey key).write bs := by
        intro e
        rw [addKey_eq, write_write]
      simp only [hw]
      exact run_after_addKey (F := fun e => marshalObject rt (k none) (e.write bs))
        (fun P e he => by
          rw [write_prepend, marshalObject_prepend rt P _ _ ((grows_write bs e).ne_nil he)])
        (fun e => (grows_write bs e).trans (marshalObject_grows rt _ _))
        key B h
  | .openNamespace key k, enc, h =>
    run_after_addKey
      (F := fun e => marshalObject rt k ((e.write [0x7B]).setNamespaces (e.openNamespaces + 1)))
      (fun P e he => by
        rw [show ((prepend P e).write [0x7B]).setNamespaces ((prepend P e).openNamespaces + 1) =
            prepend P ((e.write [0x7B]).setNamespaces (e.openNamespaces + 1)) by ext <;> simp,
          marshalObject_prepend rt P _ _ (by simp [he])])
      (fun e => (((grows_write _ e).setNamespaces _).trans (marshalObject_grows rt _ _)))
      key B h

/-- Running `m.bind g` runs `m`, then `g` on the error `m` returned. -/
theorem marshalObject_bind (g : Option Err → ObjectMarshaler) :
    ∀ (m : ObjectMarshaler) (enc : JsonEncoder),
      marshalObject rt (m.bind g) enc =
        marshalObject rt (g (marshalObject rt m enc).2) (marshalObject rt m enc).1
  | .ret _, _ => rfl
  | .addArray _ _ k, _ => marshalObject_bind g (k _) _
  | .addObject _ _ k, _ => marshalObject_bind g (k _) _
  | .addBinary _ _ k, _ => marshalObject_bind g k _
  | .add _ _ k, _ => marshalObject_bind g k _
  | .addReflected _ _ k, _ => marshalObject_bind g (k _) _
  | .openNamespace _ k, _ => marshalObject_bind g k _

end Runtime

end JsonEncoder

end Lad
