import Lad.Ladcore.JsonEncoder.Valid

/-!
# `EncodeEntry` writes one JSON object

Under a lawful runtime and configuration, `EncodeEntry` returns, and its text decodes to one
object with exactly the members of the entry, the context and the fields (`encodeEntry_json`).
It panics on a nil `EncodeCaller` (`encodeEntry_nil_encodeCaller`), and a time layout holding a
quote breaks the object, since `AppendTimeLayout` does not escape (`encodeEntry_quote_layout`).
-/

namespace Lad

open Go Utf8

namespace JsonEncoder

/-! ### Members appended without a namespace left open -/

/-- `e'` is `e` with members appended that read back as `M`, and no namespace left open. -/
def Appends (e e' : JsonEncoder) (M : List (List UInt8 × Json.Value)) : Prop :=
  ∃ T, e' = e.write T ∧ ObjectRun e e' M T 0

theorem Appends.refl (e : JsonEncoder) : Appends e e [] :=
  ⟨[], (write_nil e).symm, ObjectRun.refl e⟩

theorem Appends.trans {e₁ e₂ e₃ : JsonEncoder} {M₁ M₂ : List (List UInt8 × Json.Value)}
    (h₁ : Appends e₁ e₂ M₁) (h₂ : Appends e₂ e₃ M₂) : Appends e₁ e₃ (M₁ ++ M₂) := by
  obtain ⟨T₁, rfl, h₁⟩ := h₁
  obtain ⟨T₂, rfl, h₂⟩ := h₂
  exact ⟨T₁ ++ T₂, by rw [write_write], h₁.trans h₂⟩

theorem Appends.config {e e' : JsonEncoder} {M : List (List UInt8 × Json.Value)}
    (h : Appends e e' M) : e'.config = e.config := by
  obtain ⟨T, rfl, -⟩ := h
  rfl

theorem Appends.spaced {e e' : JsonEncoder} {M : List (List UInt8 × Json.Value)}
    (h : Appends e e' M) : e'.spaced = e.spaced := by
  obtain ⟨T, rfl, -⟩ := h
  rfl

theorem Appends.openNamespaces {e e' : JsonEncoder} {M : List (List UInt8 × Json.Value)}
    (h : Appends e e' M) : e'.openNamespaces = e.openNamespaces := by
  obtain ⟨T, rfl, -⟩ := h
  rfl

/-- A member under a key that may be unset. -/
theorem Appends.keyed_member {vt : List UInt8} {v : Json.Value} (hv : Leaf vt v) (key : List UInt8)
    (e : JsonEncoder) :
    Appends e (if key ≠ [] then e.write (Json.sepText (NoSep e.buf.bs) e.spaced ++
      keyText e.spaced key ++ vt) else e) (keyed key v) := by
  unfold JsonEncoder.keyed
  split_ifs
  · exact ⟨_, rfl, ObjectRun.member hv key e⟩
  · exact Appends.refl e

/-! ### The members of the entry -/

theorem addKey_encodeOrElse (rt : Runtime) (calls : List PrimCall) (key s : List UInt8)
    (e : JsonEncoder) :
    encodeOrElse rt calls (appendString s) (e.addKey key) =
      e.write (Json.sepText (NoSep e.buf.bs) e.spaced ++ keyText e.spaced key ++
        fallbackText (callsText rt e.spaced true calls)
          (Json.sepText true e.spaced ++ quoted (escaped s))) := by
  rw [encodeOrElse_eq rt calls (appendString_eq s), NoSep_addKey, addKey_spaced, addKey_write]

section

variable {cfg : EncoderConfig} (ent : Entry)

/-- The function member, after the caller member. -/
theorem functionMember_appends (e : JsonEncoder) (he : e.config = cfg) :
    ∃ e', (if e.config.functionKey ≠ [] then
        some ((e.addKey e.config.functionKey).appendString ent.caller.function) else some e) = some e' ∧
      Appends e e' (keyed cfg.functionKey (.str (replaceInvalid ent.caller.function))) := by
  rw [he, addKey_appendString]
  have h := Appends.keyed_member (leaf_quoted_escaped ent.caller.function) cfg.functionKey e
  split_ifs at h ⊢
  · exact ⟨_, rfl, h⟩
  · exact ⟨_, rfl, h⟩

theorem entryMessage_appends (enc e : JsonEncoder) (henc : enc.config = cfg)
    (he : e.config = cfg) :
    Appends e (entryMessage ent enc e) (keyed cfg.messageKey (.str (replaceInvalid ent.message))) := by
  unfold entryMessage
  rw [he, henc, addKey_appendString]
  exact Appends.keyed_member (leaf_quoted_escaped _) cfg.messageKey e

theorem entryStack_appends (e : JsonEncoder) (he : e.config = cfg) :
    Appends e (entryStack ent e) (stackMembers cfg ent) := by
  unfold entryStack stackMembers
  rw [he]
  by_cases hs : ent.stack = []
  · simp only [hs, ne_eq, not_true_eq_false, false_and, if_false, if_true]
    exact Appends.refl e
  · simp only [hs, ne_eq, not_false_eq_true, true_and, if_false, addString, addKey_appendString]
    exact Appends.keyed_member (leaf_quoted_escaped _) cfg.stacktraceKey e

end

/-! ### The header keeps the configuration -/

section

variable (rt : Runtime) (ent : Entry)

end

section Lawful

variable {rt : Runtime} {cfg : EncoderConfig} (hlaw : Lawful rt cfg) (ent : Entry)
include hlaw

theorem entryLevel_appends (e : JsonEncoder) (he : e.config = cfg) :
    Appends e (entryLevel rt ent e) (levelMembers rt cfg ent) := by
  unfold entryLevel levelMembers
  rw [he]
  cases hl : cfg.encodeLevel with
  | none => exact Appends.refl e
  | some f =>
    simp only [addKey_encodeOrElse]
    have hp : ∀ c ∈ f ent.level, c.Plain rt :=
      fun c hc => hlaw.format_plain c (Or.inl ⟨f, hl, ent.level, hc⟩)
    exact Appends.keyed_member (leaf_calls hlaw (hlaw.level_calls f hl ent.level) hp
      (leaf_quoted_escaped _) e.spaced) cfg.levelKey e

theorem entryTime_appends (e : JsonEncoder) (he : e.config = cfg) :
    Appends e (entryTime rt ent e) (timeMembers rt cfg ent) := by
  unfold entryTime timeMembers
  by_cases hz : ent.time.IsZero
  · simp only [hz, not_true_eq_false, and_false, if_false, if_true]
    exact Appends.refl e
  · -- `AddTime` is the key and `AppendTime`, the time method of `ArrayEncoder`
    have ht : ∀ e', appendTime rt ent.time e' = appendElem rt (.time ent.time) e' := fun _ => rfl
    simp only [hz, not_false_eq_true, and_true, if_false, ht, addKey_appendElem, he]
    exact Appends.keyed_member (leaf_elem hlaw e.spaced _) cfg.timeKey e

theorem entryName_appends (e : JsonEncoder) (he : e.config = cfg) :
    Appends e (entryName rt ent e) (nameMembers rt cfg ent) := by
  unfold entryName nameMembers
  rw [he]
  by_cases hn : ent.loggerName = []
  · simp only [hn, ne_eq, not_true_eq_false, false_and, if_false, if_true]
    exact Appends.refl e
  · -- a nil `EncodeName` is `FullNameEncoder`, which makes one call, of a string
    have hlen : ((cfg.encodeName.getD FullNameEncoder) ent.loggerName).length ≤ 1 := by
      cases hf : cfg.encodeName with
      | none => simp [FullNameEncoder]
      | some f => exact hlaw.name_calls f hf _
    have hp : ∀ c ∈ (cfg.encodeName.getD FullNameEncoder) ent.loggerName, c.Plain rt := by
      cases hf : cfg.encodeName with
      | none => simp [FullNameEncoder, PrimCall.Plain]
      | some f =>
        intro c hc
        exact hlaw.format_plain c (Or.inr (Or.inr (Or.inr (Or.inr ⟨f, hf, ent.loggerName, hc⟩))))
    simp only [hn, ne_eq, not_false_eq_true, true_and, if_false, addKey_encodeOrElse]
    exact Appends.keyed_member (leaf_calls hlaw hlen hp (leaf_quoted_escaped _) e.spaced)
      cfg.nameKey e

/-- The caller member, when `EncodeCaller` is set or the caller key is not. -/
theorem entryCaller_appends (e : JsonEncoder) (he : e.config = cfg)
    (hcaller : ent.caller.defined = true → cfg.callerKey ≠ [] → cfg.encodeCaller.isSome = true) :
    ∃ e', entryCaller rt ent e = some e' ∧ Appends e e' (callerMembers rt cfg ent) := by
  unfold entryCaller callerMembers
  cases hd : ent.caller.defined
  · exact ⟨e, rfl, Appends.refl e⟩
  simp only [if_true]
  by_cases hk : cfg.callerKey = []
  · -- no caller member: only the function member
    have hk' : ¬ e.config.callerKey ≠ [] := by simp [he, hk]
    rw [if_neg hk']
    obtain ⟨e', h, ha⟩ := functionMember_appends ent e he
    refine ⟨e', h, ?_⟩
    cases cfg.encodeCaller <;> simpa [JsonEncoder.keyed, hk] using (Appends.refl e).trans ha
  · obtain ⟨f, hf⟩ : ∃ f, cfg.encodeCaller = some f := Option.isSome_iff_exists.mp (hcaller hd hk)
    have hk' : e.config.callerKey ≠ [] := by simp [he, hk]
    rw [if_pos hk', he, hf]
    -- the caller member, then the function member after it
    have hp : ∀ c ∈ f ent.caller, c.Plain rt :=
      fun c hc => hlaw.format_plain c (Or.inr (Or.inr (Or.inr (Or.inl ⟨f, hf, ent.caller, hc⟩))))
    have h₁ := Appends.keyed_member (leaf_calls hlaw (hlaw.caller_calls f hf ent.caller) hp
      (leaf_quoted_escaped ent.caller.fullPath) e.spaced) cfg.callerKey e
    rw [if_pos hk, ← addKey_encodeOrElse] at h₁
    obtain ⟨e', h, ha⟩ := functionMember_appends ent _ (h₁.config.trans he)
    exact ⟨e', h, by simpa using h₁.trans ha⟩

end Lawful


/-! ### The context -/

/-- The encoder a context was encoded into holds what the context's marshaler writes on an empty
buffer; splicing it in after a separator is running that marshaler there. -/
theorem entryContext_run (rt : Runtime) (ctx : ObjectMarshaler) {e₀ F : JsonEncoder}
    (h0 : e₀.buf.bs = []) (hF : F.setNamespaces 0 = e₀.write F.buf.bs)
    (hns : F.openNamespaces = (marshalObject rt ctx e₀).1.openNamespaces) :
    entryContext (marshalObject rt ctx e₀).1 F = (marshalObject rt ctx (F.setNamespaces 0)).1 := by
  have hg := marshalObject_grows rt ctx e₀
  have hFc : F.config = e₀.config := by simpa using congrArg JsonEncoder.config hF
  have hFs : F.spaced = e₀.spaced := by simpa using congrArg JsonEncoder.spaced hF
  rw [hF, marshalObject_after rt F.buf.bs ctx e₀ h0, Prod.map_fst]
  unfold entryContext
  by_cases hnil : (marshalObject rt ctx e₀).1.buf.bs = []
  · -- an empty context: nothing is spliced in
    have hlen : ¬ (marshalObject rt ctx e₀).1.buf.bs.length > 0 := by simp [hnil]
    rw [if_neg hlen, if_pos hnil]
    refine JsonEncoder.ext ?_ (Buffer.ext ?_) ?_ ?_
    · simp [hFc, hg.config]
    · simp [hnil]
    · simp [hFs, hg.spaced]
    · simp [hns]
  · have hlen : (marshalObject rt ctx e₀).1.buf.bs.length > 0 := List.length_pos_iff.mpr hnil
    rw [if_pos hlen, if_neg hnil, addElementSeparator_eq]
    refine JsonEncoder.ext ?_ (Buffer.ext ?_) ?_ ?_
    · simp [hFc, hg.config]
    · simp [hFs, Buffer.appendString]
    · simp [hFs, hg.spaced]
    · simp [hns]

/-! ### The whole object -/

/-- After a run, its namespaces closed: a separator is due unless it wrote nothing and none
was due before. -/
theorem ObjectRun.NoSep_closed {e e' : JsonEncoder} {M : List (List UInt8 × Json.Value)}
    {T : List UInt8} {k : Nat} (h : ObjectRun e e' M T k) :
    NoSep (e.buf.bs ++ T ++ List.replicate k 0x7D) = (NoSep e.buf.bs && T.isEmpty) := by
  cases k with
  | zero => rw [List.replicate_zero, List.append_nil, NoSep_after (h.closed rfl)]
  | succ k =>
    -- the last byte is a closing brace, and something was written
    obtain ⟨c, t, rfl⟩ : ∃ c t, T = c :: t := by
      cases T with
      | nil => exact absurd (h.opened rfl) (Nat.succ_ne_zero k)
      | cons c t => exact ⟨c, t, rfl⟩
    rw [List.replicate_succ', ← List.append_assoc, NoSep_append_singleton]
    simp [isOpenByte]

/-- The object `EncodeEntry` writes: the entry's members, a run of the context and the fields
from after them, the braces closing the run's namespaces, the stack trace member, and the
closing brace. -/
theorem decode_entry {E₀ F₃ F₅ F₇ : JsonEncoder}
    {MH MS MSt : List (List UInt8 × Json.Value)} {TH TS TSt : List UInt8} {k : Nat}
    (hE₀ : E₀.buf.bs = [0x7B]) (hH : ObjectRun E₀ F₃ MH TH 0)
    (hS : ObjectRun (F₃.setNamespaces 0) F₅ MS TS k)
    (hSt : ObjectRun F₅.closeOpenNamespaces F₇ MSt TSt 0) :
    Json.decode (F₇.buf.bs ++ [0x7D]) = some (.obj (MH ++ MS ++ MSt)) := by
  have hk : F₅.openNamespaces = k := by simpa using hS.openNamespaces
  have hF₃ : F₃.buf.bs = E₀.buf.bs ++ TH := by simpa using hH.buf
  have hF₆ : F₅.closeOpenNamespaces.buf.bs = F₃.buf.bs ++ TS ++ List.replicate k 0x7D := by
    simp [closeOpenNamespaces, hS.buf, hk]
  -- the stack trace member and the closing brace, after the run
  have hsep₆ : NoSep F₅.closeOpenNamespaces.buf.bs = (NoSep F₃.buf.bs && TS.isEmpty) := by
    rw [hF₆]
    exact hS.NoSep_closed
  have hst := hSt.members [0x7D] ([], []) (by simpa using Json.membersText_close _ [])
  rw [hsep₆] at hst
  -- the run, then the entry's members before it
  have hrun := hS.members _ _ (by simpa using hst)
  have hsep₃ : NoSep F₃.buf.bs = (NoSep E₀.buf.bs && TH.isEmpty) := by
    rw [hF₃]
    simpa using hH.NoSep_closed
  rw [setNamespaces_bs, hsep₃] at hrun
  have hall := hH.members _ _ hrun
  rw [hE₀, show NoSep [0x7B] = true by decide] at hall
  have hF₇ : F₇.buf.bs ++ [0x7D] =
      0x7B :: (TH ++ List.replicate 0 0x7D ++ (TS ++ List.replicate k 0x7D ++ (TSt ++
        List.replicate 0 0x7D ++ [0x7D]))) := by
    simp [hSt.buf, hF₆, hF₃, hE₀]
  rw [hF₇]
  refine Json.decode_of_valueText ?_
  simpa using Json.valueText_obj hall

/-- A new encoder keeps the configuration's laws: it only defaults the line ending and the
reflected encoder. -/
theorem Lawful.newJSONEncoder {rt : Runtime} {cfg : EncoderConfig} (h : Lawful rt cfg)
    (spaced : Bool) : Lawful rt (Lad.newJSONEncoder rt cfg spaced).config where
  float_number := h.float_number
  float_plain := h.float_plain
  format_plain := h.format_plain
  level_calls := h.level_calls
  time_calls := h.time_calls
  duration_calls := h.duration_calls
  caller_calls := h.caller_calls
  name_calls := h.name_calls
  reflected := h.reflected

/-- `EncodeEntry` on the encoder of a context, built by running a marshaler on a new encoder,
returns for every entry whose defined caller has an `EncodeCaller` when there is a caller key
and for every list of fields whose `AddTo` does not panic; what it writes before the line
ending decodes to one object: the entry's members, the members the context's and the fields'
marshalers describe, and the stack trace. -/
theorem encodeEntry_json (rt : Runtime) (cfg : EncoderConfig) (spaced : Bool)
    (hlaw : Lawful rt cfg) (ctx m : ObjectMarshaler) (fields : List Field)
    (hm : Lad.addFields fields = some m) (ent : Entry)
    (hcaller : ent.caller.defined = true → cfg.callerKey ≠ [] → cfg.encodeCaller.isSome = true) :
    ∃ out, encodeEntry rt (marshalObject rt ctx (newJSONEncoder rt cfg spaced)).1 ent fields =
        some ⟨out ++ (newJSONEncoder rt cfg spaced).config.lineEnding⟩ ∧
      Json.decode out = some (.obj (entryMembers rt (newJSONEncoder rt cfg spaced).config ent ++
        (objectTree rt (newJSONEncoder rt cfg spaced).config (ctx.bind fun _ => m)).1 ++
        stackMembers (newJSONEncoder rt cfg spaced).config ent)) := by
  obtain ⟨e₀, he₀⟩ : ∃ e₀, e₀ = newJSONEncoder rt cfg spaced := ⟨_, rfl⟩
  rw [← he₀]
  have hlaw' : Lawful rt e₀.config := he₀ ▸ hlaw.newJSONEncoder spaced
  have h0 : e₀.buf.bs = [] := by rw [he₀]; rfl
  have hns0 : e₀.openNamespaces = 0 := by rw [he₀]; rfl
  have hcaller' : ent.caller.defined = true → e₀.config.callerKey ≠ [] →
      e₀.config.encodeCaller.isSome = true := by
    rw [he₀]
    exact hcaller
  have hg := marshalObject_grows rt ctx e₀
  -- the entry's own members, into a clone of the context's encoder after its opening brace
  have hc₀ : ((marshalObject rt ctx e₀).1.clone.modifyBuf (·.appendByte 0x7B)).config =
      e₀.config := hg.config
  have h₁ := entryLevel_appends hlaw' ent _ hc₀
  have h₂ := entryTime_appends hlaw' ent _ (h₁.config.trans hc₀)
  have h₃ := entryName_appends hlaw' ent _ (h₂.config.trans (h₁.config.trans hc₀))
  have hc₃ := h₃.config.trans (h₂.config.trans (h₁.config.trans hc₀))
  obtain ⟨F₂, hF₂, h₄⟩ := entryCaller_appends hlaw' ent _ hc₃ hcaller'
  have h₅ := entryMessage_appends ent (marshalObject rt ctx e₀).1 F₂ hg.config (h₄.config.trans hc₃)
  have hH := (((h₁.trans h₂).trans h₃).trans h₄).trans h₅
  have hcH := hH.config.trans hc₀
  obtain ⟨TH, hF₃, hHrun⟩ := hH
  -- the context, spliced in, is the context's marshaler run there
  have hctx := entryContext_run rt ctx h0
    (F := entryMessage ent (marshalObject rt ctx e₀).1 F₂)
    (by
      rw [hF₃]
      refine JsonEncoder.ext ?_ (Buffer.ext ?_) ?_ ?_
      · simpa [clone] using hg.config
      · simp [h0]
      · simp [clone, hg.spaced]
      · simp [hns0])
    (by rw [hF₃]; rfl)
  -- the context and the fields, as one run
  obtain ⟨TS, k, hS⟩ := marshalObject_run (ctx.bind fun _ => m) (hlaw'.leaves _)
    ((entryMessage ent (marshalObject rt ctx e₀).1 F₂).setNamespaces 0) (by simp [hcH])
  simp only [marshalObject_bind] at hS
  rw [← hctx] at hS
  set F₅ := (marshalObject rt m (entryContext (marshalObject rt ctx e₀).1
      (entryMessage ent (marshalObject rt ctx e₀).1 F₂))).1 with hF₅
  have hc₅ : F₅.config = e₀.config := by
    rw [hF₅, hctx, (marshalObject_grows rt m _).config, (marshalObject_grows rt ctx _).config]
    simp [hcH]
  -- the stack trace, after the namespaces are closed
  have h₆ := entryStack_appends ent F₅.closeOpenNamespaces hc₅
  have hc₇ := h₆.config.trans hc₅
  obtain ⟨TSt, hF₇, hStrun⟩ := h₆
  refine ⟨(entryStack ent F₅.closeOpenNamespaces).buf.bs ++ [0x7D], ?_,
    decode_entry rfl hHrun hS hStrun⟩
  simp only [encodeEntry, hF₂, JsonEncoder.addFields, hm, Option.map_some, Option.bind_eq_bind,
    Option.bind_some, Option.pure_def, Option.some.injEq]
  rw [← hF₅, hc₇]
  rfl

/-- A runtime whose floats and formatted times are all `0`, and whose `json.Encoder` writes
`null` and a newline. -/
def constRuntime : Runtime where
  appendFloat _ _ := ascii "0"
  appendFormat _ _ := ascii "0"
  base64 _ := []
  jsonEncode _ := .ok (ascii "null\n")
  fprintFloat _ _ := ascii "0"
  fprintComplex _ _ _ := ascii "(0+0i)"

/-- The keys and encoders of a production configuration, with the full caller path. -/
def sampleEncoderConfig : EncoderConfig where
  messageKey := ascii "msg"
  levelKey := ascii "level"
  timeKey := ascii "ts"
  nameKey := ascii "logger"
  callerKey := ascii "caller"
  functionKey := []
  stacktraceKey := ascii "stacktrace"
  skipLineEnding := false
  lineEnding := DefaultLineEnding
  encodeLevel := some LowercaseLevelEncoder
  encodeTime := some EpochNanosTimeEncoder
  encodeDuration := some NanosDurationEncoder
  encodeCaller := some FullCallerEncoder
  encodeName := none
  newReflectedEncoder := none
  consoleSeparator := ascii "\t"

theorem sampleEncoderConfig_lawful : Lawful constRuntime sampleEncoderConfig where
  float_number _ _ _ _ _ :=
    ⟨(by decide : Json.isNumber (ascii "0") = true),
      (by decide +kernel : ∀ c ∈ ascii "0", Json.isNumByte c = true)⟩
  float_plain _ _ := (by decide +kernel : ∀ c ∈ ascii "0", Json.Plain c)
  format_plain c hc := by
    -- the sample's encoders append their values and format no time
    rcases hc with ⟨e, he, _, hc⟩ | ⟨e, he, _, hc⟩ | ⟨e, he, _, hc⟩ | ⟨e, he, _, hc⟩ | ⟨e, he, _, hc⟩ <;>
      simp only [sampleEncoderConfig, Option.mem_def, Option.some.injEq, reduceCtorEq] at he <;>
      subst he <;>
      simp only [LowercaseLevelEncoder, EpochNanosTimeEncoder, NanosDurationEncoder,
        FullCallerEncoder, List.mem_singleton] at hc <;>
      simp [hc, PrimCall.Plain]
  level_calls := by simp [sampleEncoderConfig, LowercaseLevelEncoder]
  time_calls := by simp [sampleEncoderConfig, EpochNanosTimeEncoder]
  duration_calls := by simp [sampleEncoderConfig, NanosDurationEncoder]
  caller_calls := by simp [sampleEncoderConfig, FullCallerEncoder]
  name_calls := by simp [sampleEncoderConfig]
  reflected obj bs h := by
    simp only [sampleEncoderConfig, constRuntime, Option.getD_none, Except.ok.injEq] at h
    subst h
    have ht : trimNewline (ascii "null\n") = ascii "null" := by decide
    rw [ht]
    exact ⟨leaf_null.sep, _, leaf_null.text⟩

/-- An info entry of a named logger, with a defined caller and no stack trace. -/
def sampleEntry : Entry where
  level := InfoLevel
  time := unix 0 0
  loggerName := ascii "main"
  message := ascii "hello"
  caller := { defined := true, pc := 0, file := ascii "main.go", line := 7, function := ascii "main.main" }
  stack := []

/-- A context that opens a namespace and adds a member to it. -/
def sampleContext : ObjectMarshaler :=
  .openNamespace (ascii "req") (.add (ascii "id") (.prim (.int64 7)) (.ret none))

theorem encodeEntry_json_sample :
    ∃ out, encodeEntry constRuntime
        (marshalObject constRuntime sampleContext
          (newJSONEncoder constRuntime sampleEncoderConfig false)).1 sampleEntry [] =
        some ⟨out ++ (newJSONEncoder constRuntime sampleEncoderConfig false).config.lineEnding⟩ ∧
      Json.decode out = some (.obj
        (entryMembers constRuntime (newJSONEncoder constRuntime sampleEncoderConfig false).config
            sampleEntry ++
          (objectTree constRuntime (newJSONEncoder constRuntime sampleEncoderConfig false).config
            (sampleContext.bind fun _ => .ret none)).1 ++
          stackMembers (newJSONEncoder constRuntime sampleEncoderConfig false).config sampleEntry)) :=
  encodeEntry_json constRuntime sampleEncoderConfig false sampleEncoderConfig_lawful sampleContext
    (.ret none) [] rfl sampleEntry (fun _ _ => rfl)

/-- A configuration with a time member only, formatted with `layout` by `TimeEncoderOfLayout`. -/
def timeLayoutConfig (layout : List UInt8) : EncoderConfig where
  messageKey := []
  levelKey := []
  timeKey := ascii "ts"
  nameKey := []
  callerKey := []
  functionKey := []
  stacktraceKey := []
  skipLineEnding := false
  lineEnding := DefaultLineEnding
  encodeLevel := some LowercaseLevelEncoder
  encodeTime := some (TimeEncoderOfLayout layout)
  encodeDuration := some NanosDurationEncoder
  encodeCaller := some FullCallerEncoder
  encodeName := none
  newReflectedEncoder := none
  consoleSeparator := ascii "\t"

/-- Under `timeLayoutConfig`, `EncodeEntry` writes the key and the formatted time between quotes,
as `AppendTimeLayout` writes it: not escaped. -/
theorem encodeEntry_timeLayoutConfig (rt : Runtime) (layout : List UInt8) (ent : Entry)
    (ht : ¬ent.time.IsZero) :
    encodeEntry rt (newJSONEncoder rt (timeLayoutConfig layout) false) ent [] =
      some ⟨0x7B :: (keyText false (ascii "ts") ++ quoted (rt.appendFormat ent.time layout)) ++
        [0x7D] ++ DefaultLineEnding⟩ := by
  unfold encodeEntry
  set e₀ := newJSONEncoder rt (timeLayoutConfig layout) false with he₀
  set F₀ := e₀.clone.modifyBuf (·.appendByte 0x7B) with hF₀
  have hF₀bs : F₀.buf.bs = [0x7B] := rfl
  -- the time member is the only one written, its formatted text between quotes as it is
  set F₁ := F₀.write (keyText false (ascii "ts") ++ quoted (rt.appendFormat ent.time layout))
    with hF₁
  have hlevel : entryLevel rt ent F₀ = F₀ := by
    simp [entryLevel, hF₀, he₀, newJSONEncoder, timeLayoutConfig, clone]
  have htime : entryTime rt ent F₀ = F₁ := by
    have hk : F₀.config.timeKey = ascii "ts" := rfl
    have hsp : F₀.spaced = false := rfl
    have hcalls : (F₀.config.encodeTime.map fun e => e ent.time).getD [] =
        [.encodeTimeLayout ent.time layout] := rfl
    rw [entryTime, if_pos ⟨by rw [hk]; decide, ht⟩, appendTime, addKey_config, hcalls,
      encodeOrElse_eq rt _ (appendInt64_eq _), NoSep_addKey, addKey_spaced, hsp, addKey_eq, hF₀bs,
      hk, hsp]
    simp [hF₁, callsText, primCallText, fallbackText, quoted, Json.sepText, NoSep, isOpenByte]
  have hname : entryName rt ent F₁ = F₁ := by
    simp [entryName, hF₁, hF₀, he₀, newJSONEncoder, timeLayoutConfig, clone]
  have hcaller : entryCaller rt ent F₁ = some F₁ := by
    simp [entryCaller, hF₁, hF₀, he₀, newJSONEncoder, timeLayoutConfig, clone]
  have hmsg : entryMessage ent e₀ F₁ = F₁ := by
    simp [entryMessage, hF₁, hF₀, he₀, newJSONEncoder, timeLayoutConfig, clone]
  have hctx : entryContext e₀ F₁ = F₁ := by
    simp [entryContext, he₀, newJSONEncoder]
  have hclose : F₁.closeOpenNamespaces = F₁ := by
    have hns : F₁.openNamespaces = 0 := rfl
    refine JsonEncoder.ext rfl (Buffer.ext ?_) rfl rfl
    simp [closeOpenNamespaces, hns]
  have hstack : entryStack ent F₁ = F₁ := by
    simp [entryStack, hF₁, hF₀, he₀, newJSONEncoder, timeLayoutConfig, clone]
  have hle : F₀.config.lineEnding = DefaultLineEnding := rfl
  simp only [hlevel, htime, hname, hcaller, hmsg, hctx, addFields, Lad.addFields,
    Option.map_some, marshalObject, Option.bind_eq_bind, Option.bind_some, hclose, hstack]
  simp [hF₁, hF₀bs, hle, Buffer.appendByte, Buffer.appendString]

theorem keyText_ts : keyText false (ascii "ts") = ascii "\"ts\":" := by
  simp (disch := decide) [keyText, escaped_safe, escaped_nil, Json.colonText, ascii]

/-- A layout holding a double quote, which `Time.AppendFormat` copies as it copies all text of a
layout that is not one of its elements: what `EncodeEntry` writes before the line ending is not
JSON, for every entry with a time. -/
theorem encodeEntry_quote_layout (rt : Runtime) (ent : Entry) (ht : ¬ent.time.IsZero)
    (hfmt : rt.appendFormat ent.time [0x22] = [0x22]) :
    ∃ out, encodeEntry rt (newJSONEncoder rt (timeLayoutConfig [0x22]) false) ent [] =
        some ⟨out ++ DefaultLineEnding⟩ ∧ Json.decode out = none := by
  refine ⟨_, encodeEntry_timeLayoutConfig rt [0x22] ent ht, ?_⟩
  rw [hfmt, keyText_ts]
  decide

/-- The constant runtime, with `Time.AppendFormat` copying the layout. -/
def literalRuntime : Runtime := { constRuntime with appendFormat := fun _ layout => layout }

theorem encodeEntry_quote_layout_sample :
    ¬sampleEntry.time.IsZero ∧ literalRuntime.appendFormat sampleEntry.time [0x22] = [0x22] ∧
    ∃ out, encodeEntry literalRuntime (newJSONEncoder literalRuntime (timeLayoutConfig [0x22]) false)
        sampleEntry [] = some ⟨out ++ DefaultLineEnding⟩ ∧ Json.decode out = none :=
  ⟨by decide, rfl, encodeEntry_quote_layout literalRuntime sampleEntry (by decide) rfl⟩

end JsonEncoder

end Lad
