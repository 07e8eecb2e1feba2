import Lad.Logger

/-!
# Options of a logger

`WithOptions` applies its options in order. `IncreaseLevel` replaces the core by a level filter
unless the new levels would enable a level the core does not, and then names it on the error
output (`IncreaseLevel_spec`); options write nothing else (`WithOptions_events`).
-/

namespace Lad

open Go

variable {E : Type}

/-! ### `With` writes nothing -/

namespace Core

variable (ops : EncoderOps E)

mutual

/-- `With` builds cores and runs `sync.Once`s, and writes nothing. -/
theorem with_events : ∀ (c : Core E) (fields : List Field) (w : World E) {d : EagerCore E}
    {w' : World E}, c.with ops fields w = some (d, w') → w'.events = w.events
  | .nop, _, w, _, _, h => by
    rw [Core.with] at h
    cases h
    rfl
  | .io enab enc out, fields, w, _, _, h => by
    rw [Core.with] at h
    obtain ⟨e, -, h⟩ := Option.map_eq_some_iff.mp h
    cases h
    rfl
  | .tee cs, fields, w, _, _, h => by
    rw [Core.with] at h
    obtain ⟨⟨ds, w₁⟩, h₁, h⟩ := Option.bind_eq_some_iff.mp h
    cases h
    exact withList_events cs fields w h₁
  | .hooked c funcs, fields, w, _, _, h => by
    rw [Core.with] at h
    obtain ⟨⟨d, w₁⟩, h₁, h⟩ := Option.bind_eq_some_iff.mp h
    cases h
    exact with_events c fields w h₁
  | .levelFilter c level, fields, w, _, _, h => by
    rw [Core.with] at h
    obtain ⟨⟨d, w₁⟩, h₁, h⟩ := Option.bind_eq_some_iff.mp h
    cases h
    exact with_events c fields w h₁
  | .sampler c counts tick first thereafter hook, fields, w, _, _, h => by
    rw [Core.with] at h
    obtain ⟨⟨d, w₁⟩, h₁, h⟩ := Option.bind_eq_some_iff.mp h
    cases h
    exact with_events c fields w h₁
  | .lazyWith c lazyFields id, fields, w, _, _, h => by
    rw [Core.with] at h
    obtain ⟨⟨d, w₁⟩, h₁, h⟩ := Option.bind_eq_some_iff.mp h
    exact (with_events d.core fields w₁ h).trans (initOnce_events c lazyFields id w h₁)
termination_by c => (c.lazyCount, sizeOf c)
decreasing_by
  all_goals (apply Prod.lex_def.2; simp [lazyCount]; try omega)

theorem withList_events : ∀ (cs : List (Core E)) (fields : List Field) (w : World E)
    {ds : List (EagerCore E)} {w' : World E}, withList ops cs fields w = some (ds, w') →
      w'.events = w.events
  | [], _, w, _, _, h => by
    rw [withList] at h
    cases h
    rfl
  | c :: cs, fields, w, _, _, h => by
    rw [withList] at h
    obtain ⟨⟨d, w₁⟩, h₁, h⟩ := Option.bind_eq_some_iff.mp h
    obtain ⟨⟨ds, w₂⟩, h₂, h⟩ := Option.bind_eq_some_iff.mp h
    cases h
    exact (withList_events cs fields w₁ h₂).trans (with_events c fields w h₁)
termination_by cs => (lazyCountList cs, sizeOf cs)
decreasing_by
  all_goals (apply Prod.lex_def.2; simp [lazyCountList]; try omega)

theorem initOnce_events : ∀ (c : Core E) (fields : List Field) (id : Nat) (w : World E)
    {d : EagerCore E} {w' : World E}, initOnce ops c fields id w = some (d, w') →
      w'.events = w.events
  | c, fields, id, w, _, _, h => by
    rw [initOnce] at h
    split at h
    · obtain ⟨⟨d, w₁⟩, h₁, h⟩ := Option.bind_eq_some_iff.mp h
      cases h
      -- recording the built core changes only the lazy cores
      have hw₁ := with_events c fields w h₁
      exact hw₁
    · cases h
      rfl
termination_by c => (c.lazyCount + 1, sizeOf c)
decreasing_by
  exact Prod.Lex.left _ _ (by omega)

end

end Core

/-! ### `NewIncreaseLevelCore` -/

section IncreaseLevel

variable {w : World E} {core : Core E} {level : LevelEnabler}

/-- No level of the range that `level` enables and the core does not: the core is filtered. -/
theorem NewIncreaseLevelCore_ok
    (h : ∀ l ∈ levelRange, level.enabled l = true → Core.enabled w core l = true) :
    NewIncreaseLevelCore w core level = .ok (.levelFilter core level) := by
  unfold NewIncreaseLevelCore
  rw [List.find?_eq_none.mpr]
  intro l hl
  cases hen : level.enabled l
  · simp
  · simp [h l (List.mem_reverse.mp hl) hen]

/-- Otherwise the error names the highest such level. -/
theorem NewIncreaseLevelCore_error {l : Level} (hl : l ∈ levelRange)
    (hen : level.enabled l = true) (hdis : Core.enabled w core l = false)
    (habove : ∀ l' ∈ levelRange, l < l' → level.enabled l' = true → Core.enabled w core l' = true) :
    NewIncreaseLevelCore w core level = .error (increaseLevelErr l) := by
  unfold NewIncreaseLevelCore
  cases hf : levelRange.reverse.find? (fun l => !core.enabled w l && level.enabled l) with
  | none =>
    have hl' := List.find?_eq_none.mp hf l (List.mem_reverse.mpr hl)
    simp [hen, hdis] at hl'
  | some m =>
    obtain ⟨hm, hmem, hmax⟩ := List.find?_reverse_eq_some Int8.toInt levelRange_sorted hf
    simp only [Bool.and_eq_true, Bool.not_eq_eq_eq_not, Bool.not_true] at hm
    -- the scan from the top stops at the highest offending level, which is `l`
    have hml : m = l := by
      rcases lt_trichotomy m.toInt l.toInt with hlt | heq | hgt
      · have hl' := hmax l hl hlt
        simp [hen, hdis] at hl'
      · exact Int8.toInt_inj.mp heq
      · have hm' := habove m hmem (Int8.lt_iff_toInt_lt.mpr hgt) hm.2
        rw [hm.1] at hm'
        cases hm'
    rw [hml]

end IncreaseLevel

/-! ### Options -/

/-- An `Option` of the logger. `AddCallerSkip` and `WithClock` set the `callerSkip` and the
`clock`, which the model leaves out. -/
inductive LoggerOption (E : Type) where
  | WrapCore (f : Core E → Core E)
  | Hooks (hooks : List Nat)
  | Fields (fs : List Field)
  | ErrorOutput (w : Nat)
  | Development
  | WithCaller (enabled : Bool)
  | AddStacktrace (lvl : LevelEnabler)
  | IncreaseLevel (lvl : LevelEnabler)
  | WithPanicHook (hook : Option CheckWriteHook)
  | WithFatalHook (hook : Option CheckWriteHook)

def AddCaller : LoggerOption E := .WithCaller true

def OnFatal (action : CheckWriteAction) : LoggerOption E := .WithFatalHook (some (.action action))

/-- The line `IncreaseLevel` writes to the error output when it would lower the level. -/
def increaseLevelFailed (err : Err) : List UInt8 :=
  ascii "failed to IncreaseLevel: " ++ err ++ ascii "\n"

/-- `opt.apply(log)`: the logger after the option, and the world. -/
def LoggerOption.apply (ops : EncoderOps E) : LoggerOption E → Logger E → World E →
    Option (Logger E × World E)
  | .WrapCore f, log, w => some ({ log with core := f log.core }, w)
  | .Hooks hooks, log, w => some ({ log with core := RegisterHooks log.core hooks }, w)
  | .Fields fs, log, w => (log.core.with ops fs w).map fun r => ({ log with core := r.1.core }, r.2)
  | .ErrorOutput out, log, w => some ({ log with errorOutput := out }, w)
  | .Development, log, w => some ({ log with development := true }, w)
  | .WithCaller enabled, log, w => some ({ log with addCaller := enabled }, w)
  | .AddStacktrace lvl, log, w => some ({ log with addStack := lvl }, w)
  | .IncreaseLevel lvl, log, w =>
    match NewIncreaseLevelCore w log.core lvl with
    | .error err => some (log, w.emit (.write log.errorOutput (increaseLevelFailed err)))
    | .ok core => some ({ log with core := core }, w)
  | .WithPanicHook hook, log, w => some ({ log with onPanic := hook }, w)
  | .WithFatalHook hook, log, w => some ({ log with onFatal := hook }, w)

namespace Logger

variable (ops : EncoderOps E)

/-- `WithOptions(opts...)`: the options in order, on a copy of the logger. -/
def WithOptions (log : Logger E) (opts : List (LoggerOption E)) (w : World E) :
    Option (Logger E × World E) :=
  opts.foldlM (fun r opt => opt.apply ops r.1 r.2) (log, w)

/-- `With(fields...)`: the core's `With`, or the logger itself for no field. -/
def With (log : Logger E) (fields : List Field) (w : World E) : Option (Logger E × World E) :=
  if fields.isEmpty then some (log, w)
  else (log.core.with ops fields w).map fun r => ({ log with core := r.1.core }, r.2)

/-- `WithLazy(fields...)`: `WrapCore` with `NewLazyWith`, or the logger itself for no field. -/
def WithLazy (log : Logger E) (fields : List Field) (w : World E) : Logger E × World E :=
  if fields.isEmpty then (log, w)
  else
    let (core, w) := NewLazyWith log.core fields w
    ({ log with core := core }, w)

end Logger

theorem IncreaseLevel_spec (ops : EncoderOps E) (log : Logger E) (lvl : LevelEnabler)
    (w : World E) :
    ((∀ l ∈ levelRange, lvl.enabled l = true → Core.enabled w log.core l = true) →
      (LoggerOption.IncreaseLevel lvl).apply ops log w =
        some ({ log with core := .levelFilter log.core lvl }, w)) ∧
    (∀ l ∈ levelRange, lvl.enabled l = true → Core.enabled w log.core l = false →
      (∀ l' ∈ levelRange, l < l' → lvl.enabled l' = true → Core.enabled w log.core l' = true) →
      (LoggerOption.IncreaseLevel lvl).apply ops log w =
        some (log, w.emit (.write log.errorOutput (increaseLevelFailed (increaseLevelErr l))))) := by
  refine ⟨fun h => ?_, fun l hl hen hdis habove => ?_⟩
  · rw [LoggerOption.apply, NewIncreaseLevelCore_ok h]
  · rw [LoggerOption.apply, NewIncreaseLevelCore_error hl hen hdis habove]

/-- What an option adds to the events: `IncreaseLevel` failures, and nothing else. -/
def IncreaseLevelFailures (es : List Event) : Prop :=
  ∀ e ∈ es, ∃ out l, e = .write out (increaseLevelFailed (increaseLevelErr l))

/-- One option keeps the name and adds at most an `IncreaseLevel` failure. -/
theorem LoggerOption.apply_events (ops : EncoderOps E) (opt : LoggerOption E) (log : Logger E)
    (w : World E) :
    ∀ r ∈ opt.apply ops log w,
      r.1.name = log.name ∧ ∃ es, r.2.events = w.events ++ es ∧ IncreaseLevelFailures es := by
  intro r hr
  have hnone : IncreaseLevelFailures ([] : List Event) := by simp [IncreaseLevelFailures]
  cases opt with
  | Fields fs =>
    obtain ⟨⟨d, w₁⟩, h₁, rfl⟩ := Option.map_eq_some_iff.mp hr
    exact ⟨rfl, [], by simpa using Core.with_events ops log.core fs w h₁, hnone⟩
  | IncreaseLevel lvl =>
    simp only [LoggerOption.apply] at hr
    split at hr
    · -- the failure line, and the logger as it was
      rename_i err herr
      cases hr
      refine ⟨rfl, [.write log.errorOutput (increaseLevelFailed err)], rfl, ?_⟩
      unfold NewIncreaseLevelCore at herr
      split at herr
      · rename_i l _
        cases herr
        intro e he
        rw [List.mem_singleton] at he
        exact ⟨log.errorOutput, l, he⟩
      · cases herr
    · cases hr
      exact ⟨rfl, [], by simp, hnone⟩
  | _ =>
    cases hr
    exact ⟨rfl, [], by simp, hnone⟩

theorem WithOptions_events (ops : EncoderOps E) (log : Logger E) (opts : List (LoggerOption E))
    (w : World E) :
    ∀ r ∈ log.WithOptions ops opts w,
      r.1.name = log.name ∧ ∃ es, r.2.events = w.events ++ es ∧ IncreaseLevelFailures es := by
  -- induction on the options, from any logger and world: each step adds its own failures
  induction opts generalizing log w with
  | nil =>
    intro r hr
    cases hr
    exact ⟨rfl, [], by simp, by simp [IncreaseLevelFailures]⟩
  | cons opt opts ih =>
    intro r hr
    simp only [Logger.WithOptions, List.foldlM_cons] at hr
    obtain ⟨⟨log₁, w₁⟩, h₁, hr⟩ := Option.bind_eq_some_iff.mp hr
    obtain ⟨hname₁, es₁, hw₁, hes₁⟩ := opt.apply_events ops log w _ h₁
    simp only at hname₁ hw₁
    obtain ⟨hname, es, hw, hes⟩ := ih log₁ w₁ r hr
    refine ⟨hname.trans hname₁, es₁ ++ es, by simp [hw, hw₁], ?_⟩
    intro e he
    rcases List.mem_append.mp he with he | he
    · exact hes₁ e he
    · exact hes e he

/-- `IncreaseLevel` to `InfoLevel` on a logger with no core, then `Development`: the failure at
`FatalLevel` is written, and the logger is otherwise only put in development. -/
theorem WithOptions_events_nop :
    ((⟨.nop, true, false, none, none, [], 2, Level.enabler (FatalLevel + 1)⟩ : Logger JsonEncoder),
        (World.empty : World JsonEncoder).emit
          (.write 2 (increaseLevelFailed (increaseLevelErr FatalLevel)))) ∈
      (NewNop 2 : Logger JsonEncoder).WithOptions (jsonEncoderOps JsonEncoder.constRuntime)
        [.IncreaseLevel (Level.enabler InfoLevel), .Development] World.empty ∧
    [] = (NewNop 2 : Logger JsonEncoder).name ∧
      ∃ es, ((World.empty : World JsonEncoder).emit
          (.write 2 (increaseLevelFailed (increaseLevelErr FatalLevel)))).events =
        (World.empty : World JsonEncoder).events ++ es ∧ IncreaseLevelFailures es := by
  have hfind : NewIncreaseLevelCore (World.empty : World JsonEncoder) .nop (Level.enabler InfoLevel) =
      .error (increaseLevelErr FatalLevel) := by
    have hf : levelRange.reverse.find? (fun l => !false && (Level.enabler InfoLevel).enabled l) =
        some FatalLevel := by decide
    simp only [NewIncreaseLevelCore, Core.enabled_nop, hf]
  have hr : ((⟨.nop, true, false, none, none, [], 2, Level.enabler (FatalLevel + 1)⟩ :
      Logger JsonEncoder), (World.empty : World JsonEncoder).emit
        (.write 2 (increaseLevelFailed (increaseLevelErr FatalLevel)))) ∈
      (NewNop 2 : Logger JsonEncoder).WithOptions (jsonEncoderOps JsonEncoder.constRuntime)
        [.IncreaseLevel (Level.enabler InfoLevel), .Development] World.empty := by
    simp only [Logger.WithOptions, List.foldlM_cons, List.foldlM_nil, LoggerOption.apply, NewNop,
      hfind]
    rfl
  exact ⟨hr, WithOptions_events _ _ _ _ _ hr⟩

end Lad
