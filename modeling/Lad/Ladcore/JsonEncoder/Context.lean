import Lad.Ladcore.JsonEncoder.EncodeEntry

/-!
# A context is the fields it was built from

`EncodeEntry` on the encoder of a context built from fields `A`, with fields `B`, returns what
it returns on the fresh encoder with `A ++ B` (`encodeEntry_context`). The entry's own members
are written alike either way, since no write reads the count of open namespaces (`WritesText`).
-/

namespace Lad

open Go Utf8

namespace JsonEncoder

/-- `f` appends to the buffer a text that the configuration, the layout and whether a
separator is due decide. -/
def WritesText (f : JsonEncoder → JsonEncoder) : Prop :=
  ∃ T : EncoderConfig → Bool → Bool → List UInt8,
    ∀ e, f e = e.write (T e.config e.spaced (NoSep e.buf.bs))

theorem WritesText.setNamespaces {f : JsonEncoder → JsonEncoder} (hf : WritesText f) (n : Nat)
    (e : JsonEncoder) : f (e.setNamespaces n) = (f e).setNamespaces n := by
  obtain ⟨T, hT⟩ := hf
  rw [hT, hT]
  rfl

theorem WritesText.exists_write {f : JsonEncoder → JsonEncoder} (hf : WritesText f)
    (e : JsonEncoder) : ∃ X, f e = e.write X :=
  let ⟨_, hT⟩ := hf
  ⟨_, hT e⟩

theorem writesText_id : WritesText id := ⟨fun _ _ _ => [], fun e => (write_nil e).symm⟩

/-- A write chosen by the configuration. -/
theorem WritesText.ofConfig {F : EncoderConfig → JsonEncoder → JsonEncoder}
    (h : ∀ cfg, WritesText (F cfg)) : WritesText fun e => F e.config e := by
  choose T hT using h
  exact ⟨fun cfg sp n => T cfg cfg sp n, fun e => hT e.config e⟩

theorem WritesText.ite (p : Prop) [Decidable p] {f g : JsonEncoder → JsonEncoder}
    (hf : WritesText f) (hg : WritesText g) : WritesText fun e => if p then f e else g e := by
  by_cases hp : p
  · simpa only [hp, if_true] using hf
  · simpa only [hp, if_false] using hg

theorem writesText_addKey_encodeOrElse (rt : Runtime) (calls : List PrimCall) (key s : List UInt8) :
    WritesText fun e => encodeOrElse rt calls (appendString s) (e.addKey key) :=
  ⟨fun _ sp n => Json.sepText n sp ++ keyText sp key ++
      fallbackText (callsText rt sp true calls) (Json.sepText true sp ++ quoted (escaped s)),
    addKey_encodeOrElse rt calls key s⟩

theorem writesText_addKey_appendString (key s : List UInt8) :
    WritesText fun e => (e.addKey key).appendString s :=
  ⟨fun _ sp n => Json.sepText n sp ++ keyText sp key ++ quoted (escaped s),
    addKey_appendString key s⟩

theorem writesText_addKey_appendElem (rt : Runtime) (key : List UInt8) (v : Elem) :
    WritesText fun e => appendElem rt v (e.addKey key) :=
  ⟨fun cfg sp n => Json.sepText n sp ++ keyText sp key ++ elemText rt cfg sp true v,
    addKey_appendElem rt key v⟩

/-! ### The entry's own members -/

section Header

variable (rt : Runtime) (ent : Entry)

theorem entryLevel_writesText : WritesText (entryLevel rt ent) := by
  have hF : entryLevel rt ent = fun e => e.config.encodeLevel.elim e fun f =>
      if e.config.levelKey ≠ [] then
        encodeOrElse rt (f ent.level) (appendString ent.level.string) (e.addKey e.config.levelKey)
      else e := by
    funext e
    rw [entryLevel]
    cases e.config.encodeLevel <;> rfl
  rw [hF]
  exact WritesText.ofConfig (F := fun cfg e => cfg.encodeLevel.elim e fun f =>
      if cfg.levelKey ≠ [] then
        encodeOrElse rt (f ent.level) (appendString ent.level.string) (e.addKey cfg.levelKey)
      else e)
    fun cfg => by
      cases cfg.encodeLevel with
      | none => exact writesText_id
      | some f => exact WritesText.ite _ (writesText_addKey_encodeOrElse rt _ _ _) writesText_id

theorem entryTime_writesText : WritesText (entryTime rt ent) :=
  WritesText.ofConfig (F := fun cfg e =>
      if cfg.timeKey ≠ [] ∧ ¬ ent.time.IsZero then appendTime rt ent.time (e.addKey cfg.timeKey)
      else e)
    -- `AppendTime` is the time method of `ArrayEncoder`
    fun _ => WritesText.ite _ (writesText_addKey_appendElem rt _ (.time ent.time)) writesText_id

theorem entryName_writesText : WritesText (entryName rt ent) :=
  WritesText.ofConfig (F := fun cfg e =>
      if ent.loggerName ≠ [] ∧ cfg.nameKey ≠ [] then
        encodeOrElse rt ((cfg.encodeName.getD FullNameEncoder) ent.loggerName)
          (appendString ent.loggerName) (e.addKey cfg.nameKey)
      else e)
    fun _ => WritesText.ite _ (writesText_addKey_encodeOrElse rt _ _ _) writesText_id

theorem entryMessage_writesText (enc : JsonEncoder) : WritesText (entryMessage ent enc) :=
  WritesText.ofConfig (F := fun cfg e =>
      if cfg.messageKey ≠ [] then (e.addKey enc.config.messageKey).appendString ent.message
      else e)
    fun _ => WritesText.ite _ (writesText_addKey_appendString _ _) writesText_id

/-- The function member, after the caller member if there is one. -/
theorem functionStep_writesText (cfg : EncoderConfig) :
    WritesText fun e => if cfg.functionKey ≠ [] then
      (e.addKey cfg.functionKey).appendString ent.caller.function else e :=
  WritesText.ite _ (writesText_addKey_appendString _ _) writesText_id

/-- The caller and function members, by the configuration: `none` where `EncodeCaller` is
called and nil. -/
theorem entryCaller_eq (e : JsonEncoder) :
    entryCaller rt ent e =
      if ent.caller.defined then
        ((if e.config.callerKey ≠ [] then
            e.config.encodeCaller.map fun f =>
              encodeOrElse rt (f ent.caller) (appendString ent.caller.fullPath)
                (e.addKey e.config.callerKey)
          else some e).map fun final =>
            if e.config.functionKey ≠ [] then
              (final.addKey e.config.functionKey).appendString ent.caller.function
            else final)
      else some e := by
  unfold entryCaller
  by_cases hd : ent.caller.defined = true
  · by_cases hk : e.config.callerKey ≠ []
    · cases hf : e.config.encodeCaller with
      | none => simp [hd, hk]
      | some f =>
        -- the caller member keeps the configuration, so the function key is read off `e`
        simp [hd, hk, addKey_encodeOrElse]
        split_ifs with hfk <;> simp [hfk]
    · simp [hd, hk]
      split_ifs <;> simp
  · simp [hd]

theorem entryCaller_setNamespaces (n : Nat) (e : JsonEncoder) :
    entryCaller rt ent (e.setNamespaces n) = (entryCaller rt ent e).map (·.setNamespaces n) := by
  have hcall : ∀ f : EntryCaller → List PrimCall,
      encodeOrElse rt (f ent.caller) (appendString ent.caller.fullPath)
          ((e.setNamespaces n).addKey e.config.callerKey) =
        (encodeOrElse rt (f ent.caller) (appendString ent.caller.fullPath)
          (e.addKey e.config.callerKey)).setNamespaces n := fun f =>
    (writesText_addKey_encodeOrElse rt _ _ _).setNamespaces n e
  have hfun : ∀ X : JsonEncoder,
      ((X.setNamespaces n).addKey e.config.functionKey).appendString ent.caller.function =
        ((X.addKey e.config.functionKey).appendString ent.caller.function).setNamespaces n :=
    fun X => (writesText_addKey_appendString _ _).setNamespaces n X
  rw [entryCaller_eq, entryCaller_eq, setNamespaces_config]
  split_ifs <;> (try cases e.config.encodeCaller) <;> simp [hcall, hfun]

theorem entryCaller_write {e F : JsonEncoder} (h : entryCaller rt ent e = some F) :
    ∃ X, F = e.write X := by
  rw [entryCaller_eq] at h
  by_cases hd : ent.caller.defined = true
  · rw [if_pos hd] at h
    obtain ⟨F₁, h₁, rfl⟩ := Option.map_eq_some_iff.1 h
    -- the caller member, if any
    obtain ⟨X, rfl⟩ : ∃ X, F₁ = e.write X := by
      split_ifs at h₁ with hk
      · obtain ⟨f, -, rfl⟩ := Option.map_eq_some_iff.1 h₁
        exact (writesText_addKey_encodeOrElse rt _ _ _).exists_write e
      · cases h₁
        exact ⟨[], (write_nil e).symm⟩
    -- then the function member, if any
    obtain ⟨Y, hY⟩ := (functionStep_writesText ent e.config).exists_write (e.write X)
    exact ⟨X ++ Y, hY.trans (write_write X Y e)⟩
  · rw [if_neg hd] at h
    cases h
    exact ⟨[], (write_nil e).symm⟩

/-- The entry's own members, up to the message, written from the opening brace. -/
theorem header_setNamespaces (n : Nat) (e : JsonEncoder) :
    entryName rt ent (entryTime rt ent (entryLevel rt ent
        ((e.setNamespaces n).modifyBuf (·.appendByte 0x7B)))) =
      (entryName rt ent (entryTime rt ent (entryLevel rt ent
        (e.modifyBuf (·.appendByte 0x7B))))).setNamespaces n := by
  rw [show (e.setNamespaces n).modifyBuf (·.appendByte 0x7B) =
      (e.modifyBuf (·.appendByte 0x7B)).setNamespaces n from rfl,
    (entryLevel_writesText rt ent).setNamespaces, (entryTime_writesText rt ent).setNamespaces,
    (entryName_writesText rt ent).setNamespaces]

/-- What the entry's own members leave is the encoder they started from with text written. -/
theorem header_write (e : JsonEncoder) {F : JsonEncoder}
    (h : entryCaller rt ent (entryName rt ent (entryTime rt ent (entryLevel rt ent
      (e.modifyBuf (·.appendByte 0x7B))))) = some F) (enc : JsonEncoder) :
    ∃ X, entryMessage ent enc F = e.write X := by
  obtain ⟨X₁, h₁⟩ := (entryLevel_writesText rt ent).exists_write (e.write [0x7B])
  obtain ⟨X₂, h₂⟩ := (entryTime_writesText rt ent).exists_write (e.write ([0x7B] ++ X₁))
  obtain ⟨X₃, h₃⟩ := (entryName_writesText rt ent).exists_write (e.write ([0x7B] ++ X₁ ++ X₂))
  have hopen : e.modifyBuf (·.appendByte 0x7B) = e.write [0x7B] := rfl
  rw [hopen, h₁, write_write, h₂, write_write, h₃, write_write] at h
  obtain ⟨X₄, rfl⟩ := entryCaller_write rt ent h
  obtain ⟨X₅, h₅⟩ := (entryMessage_writesText ent enc).exists_write
    ((e.write ([0x7B] ++ X₁ ++ X₂ ++ X₃)).write X₄)
  exact ⟨_, by rw [h₅, write_write, write_write]⟩

end Header

/-! ### The context -/

section Context

variable (rt : Runtime)

/-- Adding fields, then more fields, is adding both lists. -/
theorem addFields_append (A B : List Field) (e : JsonEncoder) :
    (addFields rt A e).bind (addFields rt B) = addFields rt (A ++ B) e := by
  unfold addFields
  rw [Lad.addFields_append]
  cases Lad.addFields A with
  | none => rfl
  | some m =>
    cases Lad.addFields B with
    | none => rfl
    | some mB => simp [marshalObject_bind]

/-- Fields that panic make `EncodeEntry` panic. -/
theorem encodeEntry_of_addFields_none (e : JsonEncoder) (ent : Entry) {fields : List Field}
    (h : Lad.addFields fields = none) : encodeEntry rt e ent fields = none := by
  simp only [encodeEntry, addFields, h, Option.map_none, Option.bind_eq_bind]
  cases entryCaller rt ent _ <;> rfl

/-- `EncodeEntry` on the encoder a context was built in from the fields `A`, with the fields
`B`, is `EncodeEntry` on the fresh encoder with the fields `A ++ B`. -/
theorem encodeEntry_context {A : List Field} {m : ObjectMarshaler} (hA : Lad.addFields A = some m)
    {e₀ : JsonEncoder} (h0 : e₀.buf.bs = []) (hns : e₀.openNamespaces = 0) (ent : Entry)
    (B : List Field) :
    encodeEntry rt (marshalObject rt m e₀).1 ent B = encodeEntry rt e₀ ent (A ++ B) := by
  have hg := marshalObject_grows rt m e₀
  set k := (marshalObject rt m e₀).1.openNamespaces
  -- the clone of the context's encoder is the fresh one with the context's namespaces open
  have hclone : (marshalObject rt m e₀).1.clone = e₀.setNamespaces k :=
    JsonEncoder.ext hg.config (Buffer.ext (by simp [clone, h0])) hg.spaced rfl
  have hclone₀ : e₀.clone = e₀ := JsonEncoder.ext rfl (Buffer.ext (by simp [clone, h0])) rfl rfl
  -- the message key is read off either encoder's configuration, which is the same
  have hmsg : entryMessage ent (marshalObject rt m e₀).1 = entryMessage ent e₀ := by
    funext F
    simp only [entryMessage, hg.config]
  simp only [encodeEntry, hclone, hclone₀, header_setNamespaces, entryCaller_setNamespaces, hmsg]
  cases hc : entryCaller rt ent (entryName rt ent (entryTime rt ent (entryLevel rt ent
      (e₀.modifyBuf (·.appendByte 0x7B))))) with
  | none => rfl
  | some F₂ =>
    obtain ⟨X, hX⟩ := header_write rt ent e₀ hc e₀
    set F := entryMessage ent e₀ F₂
    have hF0 : F.openNamespaces = 0 := by rw [hX, write_openNamespaces, hns]
    -- spliced in, the context is its marshaler run after the entry's own members
    have hctx : entryContext (marshalObject rt m e₀).1 (F.setNamespaces k) = (marshalObject rt m F).1 := by
      have hF : (F.setNamespaces k).setNamespaces 0 = F :=
        JsonEncoder.ext rfl rfl rfl hF0.symm
      rw [entryContext_run rt m (F := F.setNamespaces k) h0
        (by rw [hF, setNamespaces_bs, hX, write_bs, h0, List.nil_append]) rfl, hF]
    have hctx₀ : entryContext e₀ F = F := by
      simp [entryContext, h0]
    -- the fields `A` at the log site are the context's marshaler run at the same place
    have hA' : addFields rt A F = some (marshalObject rt m F).1 := by
      simp [addFields, hA]
    simp only [Option.map_some, Option.bind_eq_bind, Option.bind_some,
      (entryMessage_writesText ent e₀).setNamespaces k F₂]
    rw [hctx, hctx₀, ← addFields_append rt A B, hA', Option.bind_some]

end Context

end JsonEncoder

end Lad
