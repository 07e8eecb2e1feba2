import Lad.Ladcore.JsonEncoder.Tree
import Lad.Lib.JsonText

/-!
# A run of a marshaler writes its tree

A run on the JSON encoder writes text that reads back as the marshaler's tree, whatever was
written before and after it (`marshalObject_run`), as long as every value it writes is a leaf
(`Leaves`). The invariant is `ObjectRun`, kept by a member (`ObjectRun.member`), a namespace
(`ObjectRun.namespace`) and one run after another (`ObjectRun.trans`).
-/

namespace Lad

open Go Utf8

namespace JsonEncoder

/-! ### Where a separator is due -/

theorem NoSep_append_singleton (bs : List UInt8) (c : UInt8) :
    NoSep (bs ++ [c]) = isOpenByte c := by
  simp [NoSep]

theorem isOpenByte_of_isNumByte {c : UInt8} (h : Json.isNumByte c = true) :
    isOpenByte c = false := by
  cases ho : isOpenByte c
  · rfl
  · simp only [isOpenByte, Bool.or_eq_true, beq_iff_eq] at ho
    rcases ho with (((rfl | rfl) | rfl) | rfl) | rfl <;> revert h <;> decide

theorem NoSep_of_isNumByte {bs : List UInt8} (hne : bs ≠ [])
    (h : ∀ c ∈ bs, Json.isNumByte c = true) : NoSep bs = false := by
  simp only [NoSep, List.getLast?_eq_some_getLast hne]
  exact isOpenByte_of_isNumByte (h _ (List.getLast_mem hne))

theorem NoSep_quoted (body : List UInt8) : NoSep (quoted body) = false := by
  rw [quoted, ← List.cons_append, NoSep_append_singleton]
  rfl

theorem keyText_ne_nil (spaced : Bool) (key : List UInt8) : keyText spaced key ≠ [] := by
  simp [keyText]

/-- A key ends in its colon, or the space after it. -/
theorem NoSep_keyText (spaced : Bool) (key : List UInt8) : NoSep (keyText spaced key) = true := by
  have h : keyText spaced key = (0x22 :: escaped key ++ [0x22]) ++ Json.colonText spaced := by
    simp [keyText]
  rw [h, NoSep_append (by cases spaced <;> simp [Json.colonText])]
  cases spaced <;> decide

theorem NoSep_addKey (key : List UInt8) (e : JsonEncoder) : NoSep (e.addKey key).buf.bs = true := by
  rw [addKey_eq, write_bs, NoSep_append (by simp [keyText]), NoSep_append (keyText_ne_nil _ _),
    NoSep_keyText]

theorem addKey_write (key X : List UInt8) (e : JsonEncoder) :
    (e.addKey key).write X =
      e.write (Json.sepText (NoSep e.buf.bs) e.spaced ++ keyText e.spaced key ++ X) := by
  rw [addKey_eq, write_write]

theorem addKey_spaced (key : List UInt8) (e : JsonEncoder) : (e.addKey key).spaced = e.spaced :=
  (addKey_grows key e).spaced

theorem addKey_appendElem (rt : Runtime) (key : List UInt8) (v : Elem) (e : JsonEncoder) :
    appendElem rt v (e.addKey key) = e.write (Json.sepText (NoSep e.buf.bs) e.spaced ++
      keyText e.spaced key ++ elemText rt e.config e.spaced true v) := by
  rw [appendElem_eq, NoSep_addKey, addKey_spaced, addKey_config, addKey_write]

theorem addKey_appendString (key s : List UInt8) (e : JsonEncoder) :
    (e.addKey key).appendString s = e.write (Json.sepText (NoSep e.buf.bs) e.spaced ++
      keyText e.spaced key ++ quoted (escaped s)) := by
  rw [appendString_eq, NoSep_addKey, addKey_spaced, Json.sepText_true, List.nil_append,
    addKey_write]

/-! ### Leaves -/

/-- A value's text as the encoder writes it: it reads back as `v` before whatever may follow a
value, and a separator is due after it. -/
structure Leaf (vt : List UInt8) (v : Json.Value) : Prop where
  text : Json.LeafText vt v
  sep : NoSep vt = false

theorem Leaf.ne_nil {vt : List UInt8} {v : Json.Value} (h : Leaf vt v) : vt ≠ [] := by
  rintro rfl
  exact absurd h.sep (by decide)

theorem leaf_quoted_escaped (s : List UInt8) : Leaf (quoted (escaped s)) (.str (replaceInvalid s)) :=
  ⟨fun rest _ => Json.valueText_str (by simpa using parseString_escaped s rest), NoSep_quoted _⟩

theorem leaf_quoted_plain {b : List UInt8} (hb : ∀ c ∈ b, Json.Plain c) :
    Leaf (quoted b) (.str b) :=
  ⟨fun rest _ => Json.valueText_str (by simpa using Json.parseString_plain hb rest),
    NoSep_quoted _⟩

theorem decimal_ne_nil (i : Int) : Json.decimal i ≠ [] := by
  intro h
  have hn := Json.isNumber_decimal i
  rw [h] at hn
  exact absurd hn (by decide)

theorem leaf_decimal (i : Int) : Leaf (Json.decimal i) (.num (Json.decimal i)) :=
  ⟨fun _ hr => Json.valueText_decimal i hr,
    NoSep_of_isNumByte (decimal_ne_nil i) fun _ hc => Json.isNumByte_of_mem_decimal hc⟩

theorem leaf_bool (b : Bool) : Leaf (boolText b) (.bool b) := by
  cases b
  · have h : boolText false = [0x66, 0x61, 0x6C, 0x73, 0x65] := by decide
    exact ⟨fun rest _ => h ▸ Json.valueText_false rest, by rw [h]; decide⟩
  · have h : boolText true = [0x74, 0x72, 0x75, 0x65] := by decide
    exact ⟨fun rest _ => h ▸ Json.valueText_true rest, by rw [h]; decide⟩

theorem leaf_null : Leaf (ascii "null") .null := by
  have h : ascii "null" = [0x6E, 0x75, 0x6C, 0x6C] := by decide
  exact ⟨fun rest _ => h ▸ Json.valueText_null rest, by rw [h]; decide⟩

/-- An object whose members a run wrote, closed with the braces of the namespaces the run left
open and its own. -/
theorem leaf_obj {T : List UInt8} {k : Nat} {M : List (List UInt8 × Json.Value)}
    (h : Json.MembersRun true T k M) :
    Leaf (0x7B :: (T ++ List.replicate (k + 1) 0x7D)) (.obj M) := by
  refine ⟨Json.LeafText.obj h, ?_⟩
  rw [List.replicate_succ', ← List.append_assoc, ← List.cons_append, NoSep_append_singleton]
  rfl

/-- An array whose elements a run wrote. -/
theorem leaf_arr {T : List UInt8} {V : List Json.Value} (h : Json.ElementsRun true T V) :
    Leaf (0x5B :: (T ++ [0x5D])) (.arr V) := by
  refine ⟨Json.LeafText.arr h, ?_⟩
  rw [← List.cons_append, NoSep_append_singleton]
  rfl

/-! ### What the runtime and the configuration must do -/

end JsonEncoder

/-- A call whose time, if it formats one, formats to plain ASCII: `AppendTimeLayout` writes
`Time.AppendFormat` between quotes without escaping it. -/
def PrimCall.Plain (rt : Runtime) : PrimCall → Prop
  | .append _ => True
  | .encodeTimeLayout t layout => ∀ c ∈ rt.appendFormat t layout, Json.Plain c

/-- `c` is a call that one of the configured encoders makes. -/
def EncoderConfig.Makes (cfg : EncoderConfig) (c : PrimCall) : Prop :=
  (∃ e ∈ cfg.encodeLevel, ∃ l, c ∈ e l) ∨ (∃ e ∈ cfg.encodeTime, ∃ t, c ∈ e t) ∨
    (∃ e ∈ cfg.encodeDuration, ∃ d, c ∈ e d) ∨ (∃ e ∈ cfg.encodeCaller, ∃ ec, c ∈ e ec) ∨
    ∃ e ∈ cfg.encodeName, ∃ n, c ∈ e n

namespace JsonEncoder

/-- What the runtime and the configured encoders must do for the encoder's output to be JSON:
`strconv.AppendFloat` writes a JSON number for a finite value and plain ASCII for any value;
the layouts the configured encoders format with give plain ASCII; each configured encoder
makes at most one call; the reflected encoder writes one JSON value with no whitespace around
it but a final newline. -/
structure Lawful (rt : Runtime) (cfg : EncoderConfig) : Prop where
  float_number : ∀ v bitSize, isNaN v = false → isPosInf v = false → isNegInf v = false →
    Json.isNumber (rt.appendFloat v bitSize) = true ∧
      ∀ c ∈ rt.appendFloat v bitSize, Json.isNumByte c = true
  float_plain : ∀ v bitSize, ∀ c ∈ rt.appendFloat v bitSize, Json.Plain c
  format_plain : ∀ c, cfg.Makes c → c.Plain rt
  level_calls : ∀ e ∈ cfg.encodeLevel, ∀ l, (e l).length ≤ 1
  time_calls : ∀ e ∈ cfg.encodeTime, ∀ t, (e t).length ≤ 1
  duration_calls : ∀ e ∈ cfg.encodeDuration, ∀ d, (e d).length ≤ 1
  caller_calls : ∀ e ∈ cfg.encodeCaller, ∀ c, (e c).length ≤ 1
  name_calls : ∀ e ∈ cfg.encodeName, ∀ n, (e n).length ≤ 1
  reflected : ∀ obj bs, (cfg.newReflectedEncoder.getD rt.jsonEncode) obj = .ok bs →
    NoSep (trimNewline bs) = false ∧ ∃ v, Json.LeafText (trimNewline bs) v

/-- A configurable encoder that makes at most one call makes at most one call through
`Option.map`. -/
theorem calls_le_one {α : Type} {o : Option (α → List PrimCall)}
    (h : ∀ e ∈ o, ∀ x, (e x).length ≤ 1) (x : α) : ((o.map fun e => e x).getD []).length ≤ 1 := by
  cases o with
  | none => simp
  | some e => exact h e rfl x

/-- The calls of a configured encoder, through `Option.map`, are plain. -/
theorem Lawful.calls_plain {rt : Runtime} {cfg : EncoderConfig} (hlaw : Lawful rt cfg) {α : Type}
    {o : Option (α → List PrimCall)} (hmk : ∀ e ∈ o, ∀ x, ∀ c ∈ e x, cfg.Makes c) (x : α) :
    ∀ c ∈ (o.map fun e => e x).getD [], c.Plain rt := by
  cases o with
  | none => simp
  | some e => exact fun c hc => hlaw.format_plain c (hmk e rfl x c hc)

section Lawful

variable {rt : Runtime} {cfg : EncoderConfig} (hlaw : Lawful rt cfg)
include hlaw

theorem leaf_float (v : UInt64) (bitSize : Nat) :
    Leaf (floatText rt v bitSize) (floatValue rt v bitSize) := by
  unfold floatText floatValue
  split_ifs with h1 h2 h3
  · exact leaf_quoted_plain (b := ascii "NaN") (by decide +kernel)
  · exact leaf_quoted_plain (b := ascii "+Inf") (by decide +kernel)
  · exact leaf_quoted_plain (b := ascii "-Inf") (by decide +kernel)
  · -- a finite value: a number, which nothing that may follow a value continues
    obtain ⟨hnum, hbytes⟩ :=
      hlaw.float_number v bitSize (by simpa using h1) (by simpa using h2) (by simpa using h3)
    have hne : rt.appendFloat v bitSize ≠ [] := by
      rintro h
      rw [h] at hnum
      exact absurd hnum (by decide)
    exact ⟨fun _ hr => Json.valueText_num hnum hbytes hr.isNumByte, NoSep_of_isNumByte hne hbytes⟩

theorem leaf_complex (re im : UInt64) (precision : Nat) :
    Leaf (complexText rt re im precision) (.str (complexBody rt re im precision)) := by
  refine leaf_quoted_plain fun c hc => ?_
  simp only [complexBody, List.mem_append] at hc
  rcases hc with ((h | h) | h) | h
  · exact hlaw.float_plain _ _ c h
  · split_ifs at h
    · rw [List.mem_singleton.mp h]
      decide
    · cases h
  · exact hlaw.float_plain _ _ c h
  · rw [List.mem_singleton.mp h]
    decide

theorem leaf_prim (p : Prim) : Leaf (primText rt p) (primValue rt p) := by
  cases p with
  | bool b => exact leaf_bool b
  | byteString v => exact leaf_quoted_escaped v.toList
  | complex128 re im => exact leaf_complex hlaw re im 64
  | complex64 re im => exact leaf_complex hlaw _ _ 32
  | float64 v => exact leaf_float hlaw v 64
  | float32 v => exact leaf_float hlaw _ 32
  | int64 v => exact leaf_decimal v
  | string s => exact leaf_quoted_escaped s
  | uint64 v => exact leaf_decimal v

theorem leaf_primCall {c : PrimCall} (hc : c.Plain rt) :
    Leaf (primCallText rt c) (primCallValue rt c) := by
  cases c with
  | append p => exact leaf_prim hlaw p
  | encodeTimeLayout t layout => exact leaf_quoted_plain hc

/-- The calls of a configurable encoder that makes at most one, or its fallback. -/
theorem leaf_calls {calls : List PrimCall} (hlen : calls.length ≤ 1)
    (hp : ∀ c ∈ calls, c.Plain rt) {F : List UInt8} {v : Json.Value} (hF : Leaf F v)
    (spaced : Bool) :
    Leaf (fallbackText (callsText rt spaced true calls) (Json.sepText true spaced ++ F))
      (callsValue rt calls v) := by
  match calls, hlen with
  | [], _ => simpa [fallbackText, callsText, callsValue, Json.sepText] using hF
  | [c], _ =>
    have hc := leaf_primCall hlaw (hp c List.mem_cons_self)
    have hT : callsText rt spaced true [c] = primCallText rt c := by
      simp [callsText, Json.sepText]
    rw [hT, fallbackText, if_neg hc.ne_nil]
    exact hc

/-- With at most one call, the separator is written before the call or the fallback. -/
theorem fallbackText_sep {calls : List PrimCall} (hlen : calls.length ≤ 1)
    (hp : ∀ c ∈ calls, c.Plain rt) (f spaced : Bool) (F : List UInt8) :
    fallbackText (callsText rt spaced f calls) (Json.sepText f spaced ++ F) =
      Json.sepText f spaced ++ fallbackText (callsText rt spaced true calls)
        (Json.sepText true spaced ++ F) := by
  match calls, hlen with
  | [], _ => simp [fallbackText, callsText, Json.sepText]
  | [c], _ =>
    have hc := (leaf_primCall hlaw (hp c List.mem_cons_self)).ne_nil
    simp [fallbackText, callsText, Json.sepText, hc]

/-- The calls of the configured duration and time encoders are plain. -/
theorem duration_calls_plain (d : Int) :
    ∀ c ∈ (cfg.encodeDuration.map fun e => e d).getD [], c.Plain rt :=
  hlaw.calls_plain (fun e he d _ hc => Or.inr (Or.inr (Or.inl ⟨e, he, d, hc⟩))) d

theorem time_calls_plain (t : Time) : ∀ c ∈ (cfg.encodeTime.map fun e => e t).getD [], c.Plain rt :=
  hlaw.calls_plain (fun e he t _ hc => Or.inr (Or.inl ⟨e, he, t, hc⟩)) t

theorem leaf_elem (spaced : Bool) (v : Elem) :
    Leaf (elemText rt cfg spaced true v) (elemValue rt cfg v) := by
  cases v with
  | prim p => simpa [elemText, elemValue, Json.sepText] using leaf_prim hlaw p
  | duration d =>
    exact leaf_calls hlaw (calls_le_one hlaw.duration_calls d) (duration_calls_plain hlaw d)
      (leaf_decimal d) spaced
  | time t =>
    exact leaf_calls hlaw (calls_le_one hlaw.time_calls t) (time_calls_plain hlaw t)
      (leaf_decimal _) spaced

theorem elemText_sep (spaced f : Bool) (v : Elem) :
    elemText rt cfg spaced f v = Json.sepText f spaced ++ elemText rt cfg spaced true v := by
  cases v with
  | prim p => simp [elemText, Json.sepText]
  | duration d =>
    exact fallbackText_sep hlaw (calls_le_one hlaw.duration_calls d) (duration_calls_plain hlaw d)
      f spaced _
  | time t =>
    exact fallbackText_sep hlaw (calls_le_one hlaw.time_calls t) (time_calls_plain hlaw t)
      f spaced _

end Lawful

/-! ### What a script writes -/

/-- A value whose text, as the encoder writes it, is a leaf, after the separator it is due. -/
structure ElemLeaf (rt : Runtime) (cfg : EncoderConfig) (v : Elem) : Prop where
  leaf : ∀ spaced, Leaf (elemText rt cfg spaced true v) (elemValue rt cfg v)
  sep : ∀ spaced f, elemText rt cfg spaced f v = Json.sepText f spaced ++ elemText rt cfg spaced true v

/-- What the reflected encoder writes of `obj` is one JSON value, with no whitespace around it
but a final newline. -/
def ReflectedLeaf (rt : Runtime) (cfg : EncoderConfig) (obj : Iface) : Prop :=
  ∀ bs, (cfg.newReflectedEncoder.getD rt.jsonEncode) obj = .ok bs →
    NoSep (trimNewline bs) = false ∧ ∃ v, Json.LeafText (trimNewline bs) v

end JsonEncoder

open JsonEncoder in
mutual

/-- Every value that a script writes is a leaf, whatever errors its nested scripts return. -/
def ObjectMarshaler.Leaves (rt : Runtime) (cfg : EncoderConfig) : ObjectMarshaler → Prop
  | .ret _ => True
  | .addArray _ m k => m.Leaves rt cfg ∧ ∀ e, (k e).Leaves rt cfg
  | .addObject _ m k => m.Leaves rt cfg ∧ ∀ e, (k e).Leaves rt cfg
  | .addBinary _ _ k => k.Leaves rt cfg
  | .add _ v k => ElemLeaf rt cfg v ∧ k.Leaves rt cfg
  | .addReflected _ v k => ReflectedLeaf rt cfg v ∧ ∀ e, (k e).Leaves rt cfg
  | .openNamespace _ k => k.Leaves rt cfg

/-- Every value that an array script writes is a leaf. -/
def ArrayMarshaler.Leaves (rt : Runtime) (cfg : EncoderConfig) : ArrayMarshaler → Prop
  | .ret _ => True
  | .appendArray m k => m.Leaves rt cfg ∧ ∀ e, (k e).Leaves rt cfg
  | .appendObject m k => m.Leaves rt cfg ∧ ∀ e, (k e).Leaves rt cfg
  | .append v k => ElemLeaf rt cfg v ∧ k.Leaves rt cfg
  | .appendReflected v k => ReflectedLeaf rt cfg v ∧ ∀ e, (k e).Leaves rt cfg

end

namespace JsonEncoder

theorem leaf_reflected {rt : Runtime} {cfg : EncoderConfig} {e : JsonEncoder} (he : e.config = cfg)
    {obj : Iface} (hobj : ReflectedLeaf rt cfg obj) {bs : List UInt8}
    (h : encodeReflected rt obj e = .ok bs) : Leaf bs ((Json.decode bs).getD .null) := by
  unfold encodeReflected at h
  split at h
  · -- a nil value is written as `null` without the reflected encoder
    cases h
    have hd : Json.decode (ascii "null") = some .null := leaf_null.text.decode
    rw [hd]
    exact leaf_null
  · split at h
    · cases h
    · rename_i bs' hbs
      cases h
      obtain ⟨hsep, v, hv⟩ := hobj bs' (he ▸ hbs)
      rw [hv.decode]
      exact ⟨hv, hsep⟩

section Lawful

variable {rt : Runtime} {cfg : EncoderConfig} (hlaw : Lawful rt cfg)
include hlaw

theorem Lawful.elemLeaf (v : Elem) : ElemLeaf rt cfg v :=
  ⟨fun spaced => leaf_elem hlaw spaced v, fun spaced f => elemText_sep hlaw spaced f v⟩

mutual

/-- Under a lawful runtime and configuration, every script writes leaves. -/
theorem Lawful.leaves : ∀ m : ObjectMarshaler, m.Leaves rt cfg
  | .ret _ => trivial
  | .addArray _ m k => ⟨Lawful.leavesArray m, fun e => Lawful.leaves (k e)⟩
  | .addObject _ m k => ⟨Lawful.leaves m, fun e => Lawful.leaves (k e)⟩
  | .addBinary _ _ k => Lawful.leaves k
  | .add _ v k => ⟨hlaw.elemLeaf v, Lawful.leaves k⟩
  | .addReflected _ v k => ⟨hlaw.reflected v, fun e => Lawful.leaves (k e)⟩
  | .openNamespace _ k => Lawful.leaves k

theorem Lawful.leavesArray : ∀ m : ArrayMarshaler, m.Leaves rt cfg
  | .ret _ => trivial
  | .appendArray m k => ⟨Lawful.leavesArray m, fun e => Lawful.leavesArray (k e)⟩
  | .appendObject m k => ⟨Lawful.leaves m, fun e => Lawful.leavesArray (k e)⟩
  | .append v k => ⟨hlaw.elemLeaf v, Lawful.leavesArray k⟩
  | .appendReflected v k => ⟨hlaw.reflected v, fun e => Lawful.leavesArray (k e)⟩

end

end Lawful

/-! ### The invariant of a run -/

/-- `e'` is `e` after a run that appended `T` and left `k` more namespaces open, and what it
wrote reads back as the members `M`: with nothing written no namespace is open, a separator is
due after what it wrote unless a namespace is still open, and `T`, the braces that close the
namespaces and any continuation of the object parse to `M` and what follows. -/
structure ObjectRun (e e' : JsonEncoder) (M : List (List UInt8 × Json.Value)) (T : List UInt8)
    (k : Nat) : Prop where
  buf : e'.buf.bs = e.buf.bs ++ T
  openNamespaces : e'.openNamespaces = e.openNamespaces + k
  opened : T = [] → k = 0
  closed : k = 0 → T ≠ [] → NoSep T = false
  members : Json.MembersRun (NoSep e.buf.bs) T k M

/-- `e'` is `e` after a run that appended `T`, which reads back as the elements `V`. -/
structure ArrayRun (e e' : JsonEncoder) (V : List Json.Value) (T : List UInt8) : Prop where
  buf : e'.buf.bs = e.buf.bs ++ T
  openNamespaces : e'.openNamespaces = e.openNamespaces
  closed : T ≠ [] → NoSep T = false
  elements : Json.ElementsRun (NoSep e.buf.bs) T V

/-- After a run that leaves no namespace open, a separator is due unless it wrote nothing and
none was due before. -/
theorem NoSep_after {bs T : List UInt8} (h : T ≠ [] → NoSep T = false) :
    NoSep (bs ++ T) = (NoSep bs && T.isEmpty) := by
  cases T with
  | nil => simp
  | cons c t => rw [NoSep_append (List.cons_ne_nil c t), h (List.cons_ne_nil c t)]; simp

theorem ObjectRun.refl (e : JsonEncoder) : ObjectRun e e [] [] 0 where
  buf := by simp
  openNamespaces := rfl
  opened _ := rfl
  closed _ h := absurd rfl h
  members := Json.MembersRun.nil _

theorem ObjectRun.trans {e₁ e₂ e₃ : JsonEncoder} {M₁ M₂ : List (List UInt8 × Json.Value)}
    {T₁ T₂ : List UInt8} {k : Nat} (h₁ : ObjectRun e₁ e₂ M₁ T₁ 0) (h₂ : ObjectRun e₂ e₃ M₂ T₂ k) :
    ObjectRun e₁ e₃ (M₁ ++ M₂) (T₁ ++ T₂) k where
  buf := by rw [h₂.buf, h₁.buf, List.append_assoc]
  openNamespaces := by rw [h₂.openNamespaces, h₁.openNamespaces, Nat.add_zero]
  opened h := h₂.opened (List.append_eq_nil_iff.mp h).2
  closed hk hne := by
    by_cases hT₂ : T₂ = []
    · subst hT₂
      rw [List.append_nil] at hne ⊢
      exact h₁.closed rfl hne
    · rw [NoSep_append hT₂]
      exact h₂.closed hk hT₂
  members := by
    have hsep : NoSep e₂.buf.bs = (NoSep e₁.buf.bs && T₁.isEmpty) := by
      rw [h₁.buf, NoSep_after (h₁.closed rfl)]
    exact Json.MembersRun.append h₁.members (hsep ▸ h₂.members)

/-- A member whose value's text is a leaf. -/
theorem ObjectRun.member {vt : List UInt8} {v : Json.Value} (hv : Leaf vt v) (key : List UInt8)
    (e : JsonEncoder) :
    ObjectRun e (e.write (Json.sepText (NoSep e.buf.bs) e.spaced ++ keyText e.spaced key ++ vt))
      [(replaceInvalid key, v)] (Json.sepText (NoSep e.buf.bs) e.spaced ++ keyText e.spaced key ++ vt)
      0 where
  buf := rfl
  openNamespaces := rfl
  opened h := by simp [keyText] at h
  closed _ _ := by rw [NoSep_append hv.ne_nil]; exact hv.sep
  members := by
    have h := Json.MembersRun.member (NoSep e.buf.bs) e.spaced (parseString_escaped key) hv.text
      (Json.MembersRun.nil false)
    simpa [keyText] using h

/-- A namespace, and the run that goes into it. -/
theorem ObjectRun.namespace {e e' : JsonEncoder} {M : List (List UInt8 × Json.Value)}
    {T : List UInt8} {k : Nat} (key : List UInt8)
    (h : ObjectRun ((e.write (Json.sepText (NoSep e.buf.bs) e.spaced ++ keyText e.spaced key ++
      [0x7B])).setNamespaces (e.openNamespaces + 1)) e' M T k) :
    ObjectRun e e' [(replaceInvalid key, .obj M)]
      (Json.sepText (NoSep e.buf.bs) e.spaced ++ keyText e.spaced key ++ [0x7B] ++ T) (k + 1) where
  buf := by rw [h.buf]; simp
  openNamespaces := by rw [h.openNamespaces]; simp; omega
  opened h := by simp [keyText] at h
  closed hk := absurd hk (Nat.succ_ne_zero k)
  members := by
    have hm := h.members
    rw [setNamespaces_bs, write_bs, NoSep_append (by simp), NoSep_append_singleton,
      show isOpenByte 0x7B = true by decide] at hm
    have h' := Json.MembersRun.open (NoSep e.buf.bs) e.spaced (parseString_escaped key) hm
    simpa [keyText] using h'

theorem ArrayRun.refl (e : JsonEncoder) : ArrayRun e e [] [] where
  buf := by simp
  openNamespaces := rfl
  closed h := absurd rfl h
  elements := Json.ElementsRun.nil _

theorem ArrayRun.trans {e₁ e₂ e₃ : JsonEncoder} {V₁ V₂ : List Json.Value} {T₁ T₂ : List UInt8}
    (h₁ : ArrayRun e₁ e₂ V₁ T₁) (h₂ : ArrayRun e₂ e₃ V₂ T₂) :
    ArrayRun e₁ e₃ (V₁ ++ V₂) (T₁ ++ T₂) where
  buf := by rw [h₂.buf, h₁.buf, List.append_assoc]
  openNamespaces := by rw [h₂.openNamespaces, h₁.openNamespaces]
  closed hne := by
    by_cases hT₂ : T₂ = []
    · subst hT₂
      rw [List.append_nil] at hne ⊢
      exact h₁.closed hne
    · rw [NoSep_append hT₂]
      exact h₂.closed hT₂
  elements := by
    have hsep : NoSep e₂.buf.bs = (NoSep e₁.buf.bs && T₁.isEmpty) := by
      rw [h₁.buf, NoSep_after h₁.closed]
    exact Json.ElementsRun.append h₁.elements (hsep ▸ h₂.elements)

/-- An element whose text is a leaf. -/
theorem ArrayRun.element {vt : List UInt8} {v : Json.Value} (hv : Leaf vt v) (e : JsonEncoder) :
    ArrayRun e (e.write (Json.sepText (NoSep e.buf.bs) e.spaced ++ vt)) [v]
      (Json.sepText (NoSep e.buf.bs) e.spaced ++ vt) where
  buf := rfl
  openNamespaces := rfl
  closed _ := by rw [NoSep_append hv.ne_nil]; exact hv.sep
  elements := by
    have h := Json.ElementsRun.element (NoSep e.buf.bs) e.spaced hv.ne_nil hv.text
      (Json.ElementsRun.nil false)
    simpa using h

/-- A leaf member, then a run from after it. -/
theorem ObjectRun.member_trans {vt : List UInt8} {v : Json.Value} (hv : Leaf vt v)
    (key : List UInt8) (e : JsonEncoder) {e' : JsonEncoder} {M : List (List UInt8 × Json.Value)}
    (h : ∃ T k, ObjectRun (e.write (Json.sepText (NoSep e.buf.bs) e.spaced ++ keyText e.spaced key ++
      vt)) e' M T k) :
    ∃ T k, ObjectRun e e' ((replaceInvalid key, v) :: M) T k := by
  obtain ⟨T, k, h⟩ := h
  exact ⟨_, _, (ObjectRun.member hv key e).trans h⟩

/-- A leaf element, then a run from after it. -/
theorem ArrayRun.element_trans {vt : List UInt8} {v : Json.Value} (hv : Leaf vt v)
    (e : JsonEncoder) {e' : JsonEncoder} {V : List Json.Value}
    (h : ∃ T, ArrayRun (e.write (Json.sepText (NoSep e.buf.bs) e.spaced ++ vt)) e' V T) :
    ∃ T, ArrayRun e e' (v :: V) T := by
  obtain ⟨T, h⟩ := h
  exact ⟨_, (ArrayRun.element hv e).trans h⟩

/-! ### Nested objects and arrays -/

/-- `AppendObject` around a run writes the run between braces, with the braces of the
namespaces it opened. -/
theorem appendObject_run {run : JsonEncoder → JsonEncoder × Option Err} {e : JsonEncoder}
    {M : List (List UInt8 × Json.Value)} {T : List UInt8} {k : Nat}
    (hg : Grows ((e.setNamespaces 0).write (Json.sepText (NoSep e.buf.bs) e.spaced ++ [0x7B]))
      (run ((e.setNamespaces 0).write (Json.sepText (NoSep e.buf.bs) e.spaced ++ [0x7B]))).1)
    (h : ObjectRun ((e.setNamespaces 0).write (Json.sepText (NoSep e.buf.bs) e.spaced ++ [0x7B]))
      (run ((e.setNamespaces 0).write (Json.sepText (NoSep e.buf.bs) e.spaced ++ [0x7B]))).1 M T k) :
    (appendObject run e).1 =
      e.write (Json.sepText (NoSep e.buf.bs) e.spaced ++ 0x7B :: (T ++ List.replicate (k + 1) 0x7D)) := by
  rw [appendObject_eq]
  refine JsonEncoder.ext ?_ (Buffer.ext ?_) ?_ ?_
  · simp [hg.config]
  · simp [h.buf, h.openNamespaces, List.replicate_succ]
  · simp [hg.spaced]
  · simp

/-- `AppendArray` around a run writes the run between brackets. -/
theorem appendArray_run {run : JsonEncoder → JsonEncoder × Option Err} {e : JsonEncoder}
    {V : List Json.Value} {T : List UInt8}
    (hg : Grows (e.write (Json.sepText (NoSep e.buf.bs) e.spaced ++ [0x5B]))
      (run (e.write (Json.sepText (NoSep e.buf.bs) e.spaced ++ [0x5B]))).1)
    (h : ArrayRun (e.write (Json.sepText (NoSep e.buf.bs) e.spaced ++ [0x5B]))
      (run (e.write (Json.sepText (NoSep e.buf.bs) e.spaced ++ [0x5B]))).1 V T) :
    (appendArray run e).1 =
      e.write (Json.sepText (NoSep e.buf.bs) e.spaced ++ 0x5B :: (T ++ [0x5D])) := by
  rw [appendArray_eq]
  refine JsonEncoder.ext ?_ (Buffer.ext ?_) ?_ ?_
  · simp [hg.config]
  · simp [h.buf]
  · simp [hg.spaced]
  · simp [h.openNamespaces]

/-- A run from after an opening bracket starts without a separator. -/
theorem NoSep_write_open {e : JsonEncoder} {X : List UInt8} {c : UInt8} (hc : isOpenByte c = true) :
    NoSep (e.write (X ++ [c])).buf.bs = true := by
  rw [write_bs, NoSep_append (by simp), NoSep_append_singleton, hc]

/-! ### Runs -/

section Runs

variable {rt : Runtime} {cfg : EncoderConfig}

mutual

/-- What a run of an object marshaler writes reads back as its tree. -/
theorem marshalObject_run : ∀ (m : ObjectMarshaler), m.Leaves rt cfg → ∀ (e : JsonEncoder),
    e.config = cfg → ∃ T k, ObjectRun e (marshalObject rt m e).1 (objectTree rt cfg m).1 T k
  | .ret _, _, e, _ => ⟨[], 0, ObjectRun.refl e⟩
  | .addArray key m k, ⟨hlm, hlk⟩, e, he => by
    -- the array's elements, from after its bracket
    have hE := NoSep_write_open (e := e.addKey key)
      (X := Json.sepText (NoSep (e.addKey key).buf.bs) (e.addKey key).spaced) (c := 0x5B) (by decide)
    obtain ⟨Ta, ha⟩ := marshalArray_run m hlm ((e.addKey key).write
      (Json.sepText (NoSep (e.addKey key).buf.bs) (e.addKey key).spaced ++ [0x5B]))
      (by simp [addKey_config, he])
    have hr1 : (appendArray (marshalArray rt m) (e.addKey key)).1 =
        e.write (Json.sepText (NoSep e.buf.bs) e.spaced ++ keyText e.spaced key ++
          0x5B :: (Ta ++ [0x5D])) := by
      rw [appendArray_run (marshalArray_grows rt m _) ha, NoSep_addKey, addKey_spaced,
        Json.sepText_true, List.nil_append, addKey_write]
    have hr2 : (appendArray (marshalArray rt m) (e.addKey key)).2 = (arrayTree rt cfg m).2 := by
      simp only [appendArray_eq, marshalArray_err, write_config, addKey_config, he]
    have hel := ha.elements
    rw [hE] at hel
    simp only [marshalObject, objectTree]
    rw [hr2, hr1]
    exact ObjectRun.member_trans (leaf_arr hel) key e
      (marshalObject_run (k (arrayTree rt cfg m).2) (hlk _) _ (by simp [he]))
  | .addObject key m k, ⟨hlm, hlk⟩, e, he => by
    -- the object's members, from after its brace, with no namespace open
    have hE := NoSep_write_open (e := (e.addKey key).setNamespaces 0)
      (X := Json.sepText (NoSep (e.addKey key).buf.bs) (e.addKey key).spaced) (c := 0x7B) (by decide)
    obtain ⟨Tm, km, hm⟩ := marshalObject_run m hlm (((e.addKey key).setNamespaces 0).write
      (Json.sepText (NoSep (e.addKey key).buf.bs) (e.addKey key).spaced ++ [0x7B]))
      (by simp [addKey_config, he])
    have hr1 : (appendObject (marshalObject rt m) (e.addKey key)).1 =
        e.write (Json.sepText (NoSep e.buf.bs) e.spaced ++ keyText e.spaced key ++
          0x7B :: (Tm ++ List.replicate (km + 1) 0x7D)) := by
      rw [appendObject_run (marshalObject_grows rt m _) hm, NoSep_addKey, addKey_spaced,
        Json.sepText_true, List.nil_append, addKey_write]
    have hr2 : (appendObject (marshalObject rt m) (e.addKey key)).2 = (objectTree rt cfg m).2 := by
      simp only [appendObject_eq, marshalObject_err, write_config, setNamespaces_config,
        addKey_config, he]
    have hmem := hm.members
    rw [hE] at hmem
    simp only [marshalObject, objectTree]
    rw [hr2, hr1]
    exact ObjectRun.member_trans (leaf_obj hmem) key e
      (marshalObject_run (k (objectTree rt cfg m).2) (hlk _) _ (by simp [he]))
  | .addBinary key v k, hlk, e, he => by
    simp only [marshalObject, objectTree]
    rw [addString, addKey_appendString]
    exact ObjectRun.member_trans (leaf_quoted_escaped _) key e
      (marshalObject_run k hlk _ (by simp [he]))
  | .add key v k, ⟨hv, hlk⟩, e, he => by
    simp only [marshalObject, objectTree]
    rw [addKey_appendElem, he]
    exact ObjectRun.member_trans (hv.leaf e.spaced) key e
      (marshalObject_run k hlk _ (by simp [he]))
  | .addReflected key v k, ⟨hv, hlk⟩, e, he => by
    have hrv : reflectedValue rt cfg v =
        (encodeReflected rt v e).map fun bs => (Json.decode bs).getD .null :=
      he ▸ reflectedValue_eq rt v e
    simp only [marshalObject, objectTree, addReflected_eq, hrv]
    cases hr : encodeReflected rt v e with
    | error x => exact marshalObject_run (k (some x)) (hlk _) e he
    | ok bs =>
      exact ObjectRun.member_trans (leaf_reflected he hv hr) key e
        (marshalObject_run (k none) (hlk _) _ (by simp [he]))
  | .openNamespace key k, hlk, e, he => by
    simp only [marshalObject, objectTree]
    rw [openNamespace_eq]
    obtain ⟨T, n, h⟩ := marshalObject_run k hlk ((e.write (Json.sepText (NoSep e.buf.bs) e.spaced ++
      keyText e.spaced key ++ [0x7B])).setNamespaces (e.openNamespaces + 1)) (by simp [he])
    exact ⟨_, _, ObjectRun.namespace key h⟩

/-- What a run of an array marshaler writes reads back as its tree. -/
theorem marshalArray_run : ∀ (m : ArrayMarshaler), m.Leaves rt cfg → ∀ (e : JsonEncoder),
    e.config = cfg → ∃ T, ArrayRun e (marshalArray rt m e).1 (arrayTree rt cfg m).1 T
  | .ret _, _, e, _ => ⟨[], ArrayRun.refl e⟩
  | .appendArray m k, ⟨hlm, hlk⟩, e, he => by
    have hE := NoSep_write_open (e := e) (X := Json.sepText (NoSep e.buf.bs) e.spaced) (c := 0x5B)
      (by decide)
    obtain ⟨Ta, ha⟩ := marshalArray_run m hlm
      (e.write (Json.sepText (NoSep e.buf.bs) e.spaced ++ [0x5B])) (by simp [he])
    have hr1 : (appendArray (marshalArray rt m) e).1 =
        e.write (Json.sepText (NoSep e.buf.bs) e.spaced ++ 0x5B :: (Ta ++ [0x5D])) :=
      appendArray_run (marshalArray_grows rt m _) ha
    have hr2 : (appendArray (marshalArray rt m) e).2 = (arrayTree rt cfg m).2 := by
      simp only [appendArray_eq, marshalArray_err, write_config, he]
    have hel := ha.elements
    rw [hE] at hel
    simp only [marshalArray, arrayTree]
    rw [hr2, hr1]
    exact ArrayRun.element_trans (leaf_arr hel) e
      (marshalArray_run (k (arrayTree rt cfg m).2) (hlk _) _ (by simp [he]))
  | .appendObject m k, ⟨hlm, hlk⟩, e, he => by
    have hE := NoSep_write_open (e := e.setNamespaces 0) (X := Json.sepText (NoSep e.buf.bs) e.spaced)
      (c := 0x7B) (by decide)
    obtain ⟨Tm, km, hm⟩ := marshalObject_run m hlm
      ((e.setNamespaces 0).write (Json.sepText (NoSep e.buf.bs) e.spaced ++ [0x7B])) (by simp [he])
    have hr1 : (appendObject (marshalObject rt m) e).1 =
        e.write (Json.sepText (NoSep e.buf.bs) e.spaced ++
          0x7B :: (Tm ++ List.replicate (km + 1) 0x7D)) :=
      appendObject_run (marshalObject_grows rt m _) hm
    have hr2 : (appendObject (marshalObject rt m) e).2 = (objectTree rt cfg m).2 := by
      simp only [appendObject_eq, marshalObject_err, write_config, setNamespaces_config, he]
    have hmem := hm.members
    rw [hE] at hmem
    simp only [marshalArray, arrayTree]
    rw [hr2, hr1]
    exact ArrayRun.element_trans (leaf_obj hmem) e
      (marshalArray_run (k (objectTree rt cfg m).2) (hlk _) _ (by simp [he]))
  | .append v k, ⟨hv, hlk⟩, e, he => by
    have h₁ : appendElem rt v e =
        e.write (Json.sepText (NoSep e.buf.bs) e.spaced ++ elemText rt cfg e.spaced true v) := by
      rw [appendElem_eq, he, hv.sep]
    simp only [marshalArray, arrayTree]
    rw [h₁]
    exact ArrayRun.element_trans (hv.leaf e.spaced) e
      (marshalArray_run k hlk _ (by simp [he]))
  | .appendReflected v k, ⟨hv, hlk⟩, e, he => by
    have hrv : reflectedValue rt cfg v =
        (encodeReflected rt v e).map fun bs => (Json.decode bs).getD .null :=
      he ▸ reflectedValue_eq rt v e
    simp only [marshalArray, arrayTree, appendReflected_eq, hrv]
    cases hr : encodeReflected rt v e with
    | error x => exact marshalArray_run (k (some x)) (hlk _) e he
    | ok bs =>
      exact ArrayRun.element_trans (leaf_reflected he hv hr) e
        (marshalArray_run (k none) (hlk _) _ (by simp [he]))

end

end Runs

end JsonEncoder

end Lad
