import Lad.Ladcore.Core.Basic
import Lad.Ladcore.JsonEncoder.Context
import Lad.Ladcore.ConsoleEncoder

/-!
# `With` is fields at the log site

For the JSON and the console encoder, a chain of `With` calls followed by `Write(ent, B)` writes
what `Write(ent, A₁ ++ … ++ Aₙ ++ B)` writes on the core the chain started from
(`with_write_eq_write`). The argument is made once (`withAll_write`) from three facts about an
encoder (`ContextFaithful`).
-/

namespace Lad

/-- The JSON encoder as the cores call it. -/
def jsonEncoderOps (rt : Runtime) : EncoderOps JsonEncoder where
  clone := JsonEncoder.Clone
  addFields := JsonEncoder.addFields rt
  encodeEntry e ent fields := (JsonEncoder.encodeEntry rt e ent fields).map Buffer.bs

/-- The console encoder as the cores call it: its `ObjectEncoder` methods are those of the JSON
encoder it embeds. -/
def consoleEncoderOps (rt : Runtime) : EncoderOps ConsoleEncoder where
  clone := ConsoleEncoder.Clone
  addFields fields c := (JsonEncoder.addFields rt fields c.json).map ConsoleEncoder.mk
  encodeEntry c ent fields := (c.encodeEntry rt ent fields).map Buffer.bs

namespace Core

variable {E : Type} (ops : EncoderOps E)

/-- `c.With(A₁).With(A₂)…`, each on the core the one before returned. -/
def withAll : Core E → List (List Field) → World E → Option (Core E × World E)
  | c, [], w => some (c, w)
  | c, A :: As, w => do
    let (c, w) ← c.with ops A w
    withAll c.core As w

theorem with_io (enab : LevelEnabler) (enc : E) (out : Nat) (A : List Field) (w : World E) :
    (Core.io enab enc out).with ops A w =
      (ops.addFields A (ops.clone enc)).map fun enc => (⟨.io enab enc out, rfl⟩, w) := by
  rw [Core.with]

/-- A leaf writes the same bytes for two encodings that agree. -/
theorem write_io_congr (enab : LevelEnabler) (out : Nat) {e e' : E} {ent : Entry}
    {B B' : List Field} (h : ops.encodeEntry e ent B = ops.encodeEntry e' ent B') (w : World E) :
    (Core.io enab e out).write ops ent B w = (Core.io enab e' out).write ops ent B' w := by
  rw [write, write, h]

/-- The leaf written with a context whose fields panicked: its encoding panics too. -/
theorem write_io_none (enab : LevelEnabler) (out : Nat) {e : E} {ent : Entry} {B : List Field}
    (h : ops.encodeEntry e ent B = none) (w : World E) :
    (Core.io enab e out).write ops ent B w = none := by
  rw [write, h]
  rfl

/-- The facts about an encoder, from the fresh encoder `e₀`, that make a context built with
`With` the same as fields at the log site. `context A` is the encoder of `With(A)`. -/
structure ContextFaithful (e₀ : E) : Prop where
  add : ∀ A A' e, ops.addFields A (ops.clone e₀) = some e →
    ops.addFields A' (ops.clone e) = ops.addFields (A ++ A') (ops.clone e₀)
  encode : ∀ A e ent B, ops.addFields A (ops.clone e₀) = some e →
    ops.encodeEntry e ent B = ops.encodeEntry e₀ ent (A ++ B)
  panics : ∀ A ent B, ops.addFields A (ops.clone e₀) = none →
    ops.encodeEntry e₀ ent (A ++ B) = none

/-- A chain of `With` calls on a leaf holding the context of `A`, then `Write(ent, B)`, writes
what `Write` with all the fields writes on the fresh leaf. -/
theorem withAll_write {e₀ : E} (hf : ContextFaithful ops e₀) (enab : LevelEnabler) (out : Nat)
    (ent : Entry) (B : List Field) :
    ∀ (As : List (List Field)) (A : List Field) (e : E) (w : World E),
      ops.addFields A (ops.clone e₀) = some e →
      ((Core.io enab e out).withAll ops As w).bind (fun r => r.1.write ops ent B r.2) =
        (Core.io enab e₀ out).write ops ent (A ++ As.flatten ++ B) w
  | [], A, e, w, he => by
    simp only [withAll, Option.bind_some, List.flatten_nil, List.append_nil]
    exact write_io_congr ops enab out (hf.encode A e ent B he) w
  | A' :: As, A, e, w, he => by
    simp only [withAll, with_io, Option.bind_eq_bind]
    -- the next `With` adds `A'` to a clone of the context of `A`: the context of `A ++ A'`
    rw [hf.add A A' e he]
    cases hA' : ops.addFields (A ++ A') (ops.clone e₀) with
    | none =>
      simp only [Option.map_none, Option.bind_none]
      refine (write_io_none ops enab out ?_ w).symm
      simpa [List.append_assoc] using hf.panics (A ++ A') ent (As.flatten ++ B) hA'
    | some e' =>
      simp only [Option.map_some, Option.bind_some]
      rw [withAll_write hf enab out ent B As (A ++ A') e' w hA']
      simp [List.append_assoc]

/-! ### The JSON and the console encoder -/

section Encoders

variable (rt : Runtime)

/-- The context the fields `A` build from a fresh JSON encoder. -/
theorem json_context {e₀ : JsonEncoder} {A : List Field} {e : JsonEncoder}
    (he : JsonEncoder.addFields rt A e₀ = some e) :
    ∃ m, Lad.addFields A = some m ∧ e = (JsonEncoder.marshalObject rt m e₀).1 := by
  simp only [JsonEncoder.addFields, Option.map_eq_some_iff] at he
  obtain ⟨m, hm, rfl⟩ := he
  exact ⟨m, hm, rfl⟩

theorem json_panics {e₀ : JsonEncoder} {A : List Field}
    (he : JsonEncoder.addFields rt A e₀ = none) : Lad.addFields A = none := by
  simpa [JsonEncoder.addFields] using he

theorem addFields_append_panics {A B : List Field} (h : Lad.addFields A = none) :
    Lad.addFields (A ++ B) = none := by
  rw [Lad.addFields_append, h]
  rfl

theorem contextFaithful_json {e₀ : JsonEncoder} (h0 : e₀.buf.bs = [])
    (hns : e₀.openNamespaces = 0) : ContextFaithful (jsonEncoderOps rt) e₀ where
  add A A' e he := by
    show JsonEncoder.addFields rt A' e = JsonEncoder.addFields rt (A ++ A') e₀
    rw [← JsonEncoder.addFields_append rt A A' e₀]
    exact (congrArg (·.bind (JsonEncoder.addFields rt A')) he).symm
  encode A e ent B he := by
    obtain ⟨m, hm, rfl⟩ := json_context rt he
    -- `Clone` of a JSON encoder is the encoder itself
    exact congrArg (Option.map Buffer.bs) (JsonEncoder.encodeEntry_context rt hm h0 hns ent B)
  panics A ent B he := by
    show Option.map _ _ = none
    rw [JsonEncoder.encodeEntry_of_addFields_none rt e₀ ent
      (addFields_append_panics (json_panics rt he))]
    rfl

/-- The console encoder only reads its embedded encoder's configuration and the fields it
adds to a clone of it. -/
theorem console_encodeEntry_context {A : List Field} {m : ObjectMarshaler}
    (hA : Lad.addFields A = some m) (e₀ : JsonEncoder) (ent : Entry) (B : List Field) :
    ConsoleEncoder.encodeEntry rt ⟨(JsonEncoder.marshalObject rt m e₀).1⟩ ent B =
      ConsoleEncoder.encodeEntry rt ⟨e₀⟩ ent (A ++ B) := by
  have hcfg := (JsonEncoder.marshalObject_grows rt m e₀).config
  have hctx : JsonEncoder.addFields rt B (JsonEncoder.marshalObject rt m e₀).1 =
      JsonEncoder.addFields rt (A ++ B) e₀ := by
    rw [← JsonEncoder.addFields_append]
    simp [JsonEncoder.addFields, hA]
  simp only [ConsoleEncoder.encodeEntry, ConsoleEncoder.writeContext,
    ConsoleEncoder.addSeparatorIfNecessary, JsonEncoder.Clone, hcfg, hctx]

theorem contextFaithful_console (e₀ : ConsoleEncoder) :
    ContextFaithful (consoleEncoderOps rt) e₀ where
  add A A' e he := by
    simp only [consoleEncoderOps, ConsoleEncoder.Clone, JsonEncoder.Clone,
      Option.map_eq_some_iff] at he ⊢
    obtain ⟨e', he', rfl⟩ := he
    rw [← JsonEncoder.addFields_append rt A A' e₀.json, he', Option.bind_some]
  encode A e ent B he := by
    simp only [consoleEncoderOps, ConsoleEncoder.Clone, JsonEncoder.Clone,
      Option.map_eq_some_iff] at he
    obtain ⟨e', he', rfl⟩ := he
    obtain ⟨m, hm, rfl⟩ := json_context rt he'
    show Option.map _ _ = Option.map _ _
    rw [console_encodeEntry_context rt hm]
  panics A ent B he := by
    simp only [consoleEncoderOps, ConsoleEncoder.Clone, JsonEncoder.Clone,
      Option.map_eq_none_iff] at he
    have hAB := addFields_append_panics (B := B) (json_panics rt he)
    show Option.map _ _ = none
    simp [ConsoleEncoder.encodeEntry, ConsoleEncoder.writeContext, JsonEncoder.Clone,
      JsonEncoder.addFields, hAB]

/-- `With` on a leaf touches no shared state: what the parent writes afterwards is unchanged. -/
theorem withAll_io_world (enab : LevelEnabler) (out : Nat) :
    ∀ (As : List (List Field)) (e : E) (w : World E),
      ∀ r ∈ (Core.io enab e out).withAll ops As w, r.2 = w
  | [], e, w, r, hr => by
    simp only [withAll, Option.mem_def, Option.some.injEq] at hr
    rw [← hr]
  | A :: As, e, w, r, hr => by
    simp only [withAll, with_io, Option.bind_eq_bind, Option.mem_def,
      Option.bind_eq_some_iff, Option.map_eq_some_iff] at hr
    obtain ⟨_, ⟨e', _, rfl⟩, hr⟩ := hr
    exact withAll_io_world enab out As e' w r hr

theorem with_write_eq_write (cfg : EncoderConfig) (spaced : Bool) (ws : Nat)
    (enab : LevelEnabler) (ent : Entry) (As : List (List Field)) (B : List Field)
    (w : World JsonEncoder) (w' : World ConsoleEncoder) :
    (((NewCore (newJSONEncoder rt cfg spaced) ws enab).withAll (jsonEncoderOps rt) As w).bind
        fun r => r.1.write (jsonEncoderOps rt) ent B r.2) =
      (NewCore (newJSONEncoder rt cfg spaced) ws enab).write (jsonEncoderOps rt) ent
        (As.flatten ++ B) w ∧
    (∀ r ∈ (NewCore (newJSONEncoder rt cfg spaced) ws enab).withAll (jsonEncoderOps rt) As w,
      r.2 = w) ∧
    (((NewCore (NewConsoleEncoder rt cfg) ws enab).withAll (consoleEncoderOps rt) As w').bind
        fun r => r.1.write (consoleEncoderOps rt) ent B r.2) =
      (NewCore (NewConsoleEncoder rt cfg) ws enab).write (consoleEncoderOps rt) ent
        (As.flatten ++ B) w' ∧
    (∀ r ∈ (NewCore (NewConsoleEncoder rt cfg) ws enab).withAll (consoleEncoderOps rt) As w',
      r.2 = w') := by
  refine ⟨?json, withAll_io_world _ enab ws As _ w, ?console, withAll_io_world _ enab ws As _ w'⟩
  case json =>
    -- the chain starts from the fresh encoder: the context of no fields
    exact withAll_write _ (contextFaithful_json rt rfl rfl) enab ws ent B As [] _ w rfl
  case console =>
    exact withAll_write _ (contextFaithful_console rt _) enab ws ent B As [] _ w' rfl

end Encoders

end Core

end Lad
