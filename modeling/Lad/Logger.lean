import Lad.Ladcore.Core.Lazy
import Lad.Ladcore.Core.LevelOf
import Lad.Internal.Stacktrace.Format
import Lad.Lib.Lines
import Mathlib.Data.List.Induction

/-!
# Loggers

A log call runs `check`, then writes the checked entry to every core that accepted it, reports
write errors on the error output (`HookedEntry.Write`), and ends as its level and the logger's
hooks fix, whatever the cores decided (`Log_ending`). `annotate` adds the caller and the stack
trace (`annotate_spec`).
-/

namespace Lad

open Go stacktrace

/-! ### What runs after the write -/

/-- `CheckWriteAction`, in increasing severity. -/
inductive CheckWriteAction where
  | WriteThenNoop
  | WriteThenGoexit
  | WriteThenPanic
  | WriteThenFatal
  deriving DecidableEq, Repr

/-- A `CheckWriteHook`: one of the actions, or a hook of the program's own, by id. -/
inductive CheckWriteHook where
  | action (a : CheckWriteAction)
  | custom (id : Nat)
  deriving DecidableEq, Repr

/-- How a log call ends once its entry is written. -/
inductive Ending where
  | returns
  | goexit
  | panics (msg : List UInt8)
  | exits (code : Nat)
  /-- A hook of the program's own runs; what it does is its own. -/
  | hook (id : Nat)
  deriving DecidableEq, Repr

/-- `OnWrite(ce, fields)` on an entry with the message `msg`. -/
def CheckWriteHook.OnWrite (msg : List UInt8) : CheckWriteHook → Ending
  | .action .WriteThenNoop => .returns
  | .action .WriteThenGoexit => .goexit
  | .action .WriteThenPanic => .panics msg
  | .action .WriteThenFatal => .exits 1
  | .custom id => .hook id

/-- `terminalHookOverride(defaultHook, override)`: a nil or `WriteThenNoop` override would let the
program go on after a panic or fatal entry, so the default stands then. -/
def terminalHookOverride (defaultHook : CheckWriteHook) : Option CheckWriteHook → CheckWriteHook
  | none => defaultHook
  | some (.action .WriteThenNoop) => defaultHook
  | some hook => hook

/-- A default that does not return is never overridden by one that does. -/
theorem terminalHookOverride_ne_returns {defaultHook : CheckWriteHook} {msg : List UInt8}
    (hd : defaultHook.OnWrite msg ≠ .returns) (override : Option CheckWriteHook) :
    (terminalHookOverride defaultHook override).OnWrite msg ≠ .returns := by
  rcases override with _ | ⟨a⟩ | id
  · exact hd
  · cases a with
    | WriteThenNoop => exact hd
    | _ => simp [terminalHookOverride, CheckWriteHook.OnWrite]
  · simp [terminalHookOverride, CheckWriteHook.OnWrite]

/-! ### Checked entries -/

/-- A `*CheckedEntry` with the members only the logger sets: the hook of `After`, and the
`ErrorOutput`, an output by id. -/
structure HookedEntry (E : Type) extends CheckedEntry E where
  after : Option CheckWriteHook
  ErrorOutput : Option Nat

variable {E : Type}

/-- An entry as the cores' `Check` leaves it: no hook and no error output yet. -/
def HookedEntry.ofChecked (ce : CheckedEntry E) : HookedEntry E := ⟨ce, none, none⟩

/-- `ce.After(ent, hook)`, safe on a nil `ce`: a nil entry becomes one for `ent` with no cores. -/
def HookedEntry.After (ce : Option (HookedEntry E)) (ent : Entry) (hook : CheckWriteHook) :
    HookedEntry E :=
  match ce with
  | none => ⟨⟨ent, []⟩, some hook, none⟩
  | some ce => { ce with after := some hook }

/-- `%v` of a `time.Time`: `Time.String`, in the layout below. -/
def timeString (rt : Runtime) (t : Go.Time) : List UInt8 :=
  rt.appendFormat t (ascii "2006-01-02 15:04:05.999999999 -0700 MST")

/-- `%v` of the error `multierr.Append` builds of several: their messages, joined by `; `. -/
def multierrText (errs : List Err) : List UInt8 := (errs.intersperse (ascii "; ")).flatten

/-- The line `CheckedEntry.Write` writes to the error output when a core's `Write` failed. -/
def writeErrText (rt : Runtime) (t : Go.Time) (errs : List Err) : List UInt8 :=
  timeString rt t ++ ascii " write error: " ++ multierrText errs ++ ascii "\n"

/-- `ce.Write(fields...)`: the entry written to each core that accepted it, in order; if one
of them failed, the error line on the error output, which is synced; then the hook. -/
def HookedEntry.Write (ops : EncoderOps E) (rt : Runtime) (ce : HookedEntry E)
    (fields : List Field) (w : World E) : Option (Ending × World E) := do
  let (errs, w) ← CheckedEntry.write ops (some ce.toCheckedEntry) fields w
  let w :=
    match errs, ce.ErrorOutput with
    | _ :: _, some out => (w.emit (.write out (writeErrText rt ce.entry.time errs))).emit (.sync out)
    | _, _ => w
  pure ((ce.after.map fun hook => hook.OnWrite ce.entry.message).getD .returns, w)

/-! ### The logger -/

/-- `Logger`. Its `callerSkip` and `clock` are left out: a call is given the time its clock reads
and the frames of its stack past the skip. -/
structure Logger (E : Type) where
  core : Core E
  development : Bool
  addCaller : Bool
  onPanic : Option CheckWriteHook
  onFatal : Option CheckWriteHook
  name : List UInt8
  errorOutput : Nat
  addStack : LevelEnabler

/-- `New(core)` with no options, writing its errors to the output `stderr`. -/
def New (core : Core E) (stderr : Nat) : Logger E :=
  ⟨core, false, false, none, none, [], stderr, Level.enabler (FatalLevel + 1)⟩

/-- `NewNop()`, writing its errors to the output `discard`. -/
def NewNop (discard : Nat) : Logger E :=
  ⟨.nop, false, false, none, none, [], discard, Level.enabler (FatalLevel + 1)⟩

/-- The entry of a frame as its caller. -/
def stacktrace.Frame.toCaller (frame : Frame) : EntryCaller :=
  ⟨frame.PC ≠ 0, frame.PC, frame.File, frame.Line, frame.Function⟩

/-- `%v` of `ent.Time.UTC()`: `Time.String`, the time in UTC in the layout below. -/
def utcText (rt : Runtime) (t : Go.Time) : List UInt8 :=
  rt.appendFormat (t.in Location.UTC) (ascii "2006-01-02 15:04:05.999999999 -0700 MST")

/-- The line `check` writes to the error output when there is no caller. -/
def callerErrText (rt : Runtime) (t : Go.Time) : List UInt8 :=
  utcText rt t ++ ascii " Logger.check error: failed to get caller\n"

namespace Logger

/-- The `switch` of `check` on the level: the hook a panic or fatal entry ends in, set even on a
nil entry. -/
def after (log : Logger E) (ent : Entry) (ce : Option (HookedEntry E)) : Option (HookedEntry E) :=
  if ent.level = PanicLevel then
    some (HookedEntry.After ce ent (terminalHookOverride (.action .WriteThenPanic) log.onPanic))
  else if ent.level = FatalLevel then
    some (HookedEntry.After ce ent (terminalHookOverride (.action .WriteThenFatal) log.onFatal))
  else if ent.level = DPanicLevel then
    if log.development then
      some (HookedEntry.After ce ent (terminalHookOverride (.action .WriteThenPanic) log.onPanic))
    else ce
  else ce

/-- What `check` adds to an entry a core accepted: the error output, and the caller and the stack
trace from the frames past the skip, all of them when a trace is wanted and the first otherwise. -/
def annotate (rt : Runtime) (log : Logger E) (callers : List Frame) (ce : HookedEntry E)
    (w : World E) : HookedEntry E × World E :=
  let ce := { ce with ErrorOutput := some log.errorOutput }
  let addStack := log.addStack.enabled ce.entry.level
  if !log.addCaller && !addStack then (ce, w)
  else
    let stackDepth := if addStack then Depth.Full else Depth.First
    match callers.take (stackDepth.count callers.length) with
    | [] =>
      if log.addCaller then
        (ce, (w.emit (.write log.errorOutput (callerErrText rt ce.entry.time))).emit
          (.sync log.errorOutput))
      else (ce, w)
    | frame :: rest =>
      let ce := if log.addCaller then { ce with entry.caller := frame.toCaller } else ce
      if addStack then
        let stackfmt := (NewFormatter ⟨[]⟩).FormatFrame frame
        let stackfmt := if rest ≠ [] then stackfmt.FormatStack rest else stackfmt
        ({ ce with entry.stack := stackfmt.b.bs }, w)
      else (ce, w)

/-- The entry `check` builds: the level, the time, the logger's name and the message. -/
def newEntry (log : Logger E) (now : Go.Time) (lvl : Level) (msg : List UInt8) : Entry :=
  ⟨lvl, now, log.name, msg, ⟨false, 0, [], 0, []⟩, []⟩

@[simp] theorem newEntry_level (log : Logger E) (now : Go.Time) (lvl : Level) (msg : List UInt8) :
    (log.newEntry now lvl msg).level = lvl := rfl

@[simp] theorem newEntry_message (log : Logger E) (now : Go.Time) (lvl : Level)
    (msg : List UInt8) : (log.newEntry now lvl msg).message = msg := rfl

@[simp] theorem newEntry_time (log : Logger E) (now : Go.Time) (lvl : Level) (msg : List UInt8) :
    (log.newEntry now lvl msg).time = now := rfl

section Log

variable (ops : EncoderOps E) (rt : Runtime)

/-- `check(lvl, msg)`, at the time `now` and with the frames `callers` past the skip. -/
def check (log : Logger E) (now : Go.Time) (callers : List Frame) (lvl : Level)
    (msg : List UInt8) (w : World E) : Option (Option (HookedEntry E) × World E) :=
  -- the level first, below `DPanicLevel` only: a call at a higher level may end the program
  if lvl < DPanicLevel ∧ Core.enabled w log.core lvl = false then some (none, w)
  else do
    let ent := log.newEntry now lvl msg
    let (checked, w) ← Core.check ops log.core ent none w
    let ce := log.after ent (checked.map HookedEntry.ofChecked)
    -- only an entry a core accepted is annotated, not one that exists for its hook
    match checked, ce with
    | some _, some ce => pure ((log.annotate rt callers ce w).map some id)
    | _, ce => pure (ce, w)

/-- `Log(lvl, msg, fields...)`: how the call ends, and the world after it. -/
def Log (log : Logger E) (now : Go.Time) (callers : List Frame) (lvl : Level) (msg : List UInt8)
    (fields : List Field) (w : World E) : Option (Ending × World E) := do
  let (ce, w) ← log.check ops rt now callers lvl msg w
  match ce with
  | none => pure (.returns, w)
  | some ce => ce.Write ops rt fields w

/-- `Debug`, `Info`, `Warn`, `Error`, `DPanic`, `Panic` and `Fatal`: `Log` at their levels. -/
def Debug (log : Logger E) (now : Go.Time) (callers : List Frame) (msg : List UInt8)
    (fields : List Field) (w : World E) : Option (Ending × World E) :=
  log.Log ops rt now callers DebugLevel msg fields w
def Info (log : Logger E) (now : Go.Time) (callers : List Frame) (msg : List UInt8)
    (fields : List Field) (w : World E) : Option (Ending × World E) :=
  log.Log ops rt now callers InfoLevel msg fields w
def Warn (log : Logger E) (now : Go.Time) (callers : List Frame) (msg : List UInt8)
    (fields : List Field) (w : World E) : Option (Ending × World E) :=
  log.Log ops rt now callers WarnLevel msg fields w
def Error (log : Logger E) (now : Go.Time) (callers : List Frame) (msg : List UInt8)
    (fields : List Field) (w : World E) : Option (Ending × World E) :=
  log.Log ops rt now callers ErrorLevel msg fields w
def DPanic (log : Logger E) (now : Go.Time) (callers : List Frame) (msg : List UInt8)
    (fields : List Field) (w : World E) : Option (Ending × World E) :=
  log.Log ops rt now callers DPanicLevel msg fields w
def Panic (log : Logger E) (now : Go.Time) (callers : List Frame) (msg : List UInt8)
    (fields : List Field) (w : World E) : Option (Ending × World E) :=
  log.Log ops rt now callers PanicLevel msg fields w
def Fatal (log : Logger E) (now : Go.Time) (callers : List Frame) (msg : List UInt8)
    (fields : List Field) (w : World E) : Option (Ending × World E) :=
  log.Log ops rt now callers FatalLevel msg fields w

end Log

/-- `Named(s)`: the segment `s` added to the name, after a dot unless the name is empty. -/
def Named (log : Logger E) (s : List UInt8) : Logger E :=
  if s = [] then log
  else if log.name = [] then { log with name := s }
  else { log with name := log.name ++ [0x2E] ++ s }

/-! ### How a call ends -/

/-- The hook `check` sets at a level: a panic or an exit, with the logger's override. -/
def terminalHook (log : Logger E) (lvl : Level) : Option CheckWriteHook :=
  if lvl = PanicLevel then some (terminalHookOverride (.action .WriteThenPanic) log.onPanic)
  else if lvl = FatalLevel then some (terminalHookOverride (.action .WriteThenFatal) log.onFatal)
  else if lvl = DPanicLevel ∧ log.development = true then
    some (terminalHookOverride (.action .WriteThenPanic) log.onPanic)
  else none

theorem terminalHook_of_lt {log : Logger E} {lvl : Level} (h : lvl < DPanicLevel) :
    log.terminalHook lvl = none := by
  have hp : lvl ≠ PanicLevel := by rintro rfl; exact absurd h (by decide)
  have hf : lvl ≠ FatalLevel := by rintro rfl; exact absurd h (by decide)
  have hd : lvl ≠ DPanicLevel := by rintro rfl; exact absurd h (by decide)
  simp [terminalHook, hp, hf, hd]

/-- `after` sets the level's hook, and keeps the entry's own otherwise. -/
theorem after_hook (log : Logger E) (ent : Entry) (ce : Option (HookedEntry E)) :
    (log.after ent ce).bind HookedEntry.after =
      (log.terminalHook ent.level).or (ce.bind HookedEntry.after) := by
  unfold after terminalHook
  split_ifs <;> cases ce <;> simp_all [HookedEntry.After]

/-- `After` keeps the entry and cores it is given, or starts from the entry with no cores. -/
theorem After_toCheckedEntry (ce : Option (HookedEntry E)) (ent : Entry) (hook : CheckWriteHook) :
    (HookedEntry.After ce ent hook).toCheckedEntry = (ce.map (·.toCheckedEntry)).getD ⟨ent, []⟩ := by
  cases ce <;> rfl

/-- `after` keeps the message of the entry it is given, or gives the entry's own. -/
theorem after_message (log : Logger E) (ent : Entry) {ce : Option (HookedEntry E)}
    (hce : ∀ c ∈ ce, c.entry.message = ent.message) :
    ∀ c ∈ log.after ent ce, c.entry.message = ent.message := by
  have hAfter : ∀ hook, (HookedEntry.After ce ent hook).entry.message = ent.message := by
    intro hook
    have h := congrArg (fun c : CheckedEntry E => c.entry.message) (After_toCheckedEntry ce ent hook)
    cases ce with
    | none => exact h
    | some c => exact h.trans (hce c rfl)
  intro c hc
  unfold after at hc
  split_ifs at hc
  all_goals first
    | (cases hc; exact hAfter _)
    | exact hce c hc

/-- With no frame, `annotate` only sets the error output, and writes the failure to it when a
caller is wanted. -/
theorem annotate_nil (rt : Runtime) (log : Logger E) (ce : HookedEntry E) (w : World E) :
    log.annotate rt [] ce w =
      ({ ce with ErrorOutput := some log.errorOutput },
        if log.addCaller then
          (w.emit (.write log.errorOutput (callerErrText rt ce.entry.time))).emit
            (.sync log.errorOutput)
        else w) := by
  unfold annotate
  simp only [List.take_nil]
  cases log.addCaller <;> simp

/-- The text of the first frame, then of the others but the last. -/
theorem stackText_eq (frame : Frame) (rest : List Frame) :
    (if rest = [] then (NewFormatter ⟨[]⟩).FormatFrame frame
      else ((NewFormatter ⟨[]⟩).FormatFrame frame).FormatStack rest).b.bs =
      framesText (frame :: rest.dropLast) := by
  have hfirst : ((NewFormatter ⟨[]⟩).FormatFrame frame).b.bs = frameText frame := by
    simp [FormatFrame_bs, NewFormatter]
  rw [framesText_cons]
  split
  · rename_i hrest
    simp [hfirst, hrest]
  · rw [FormatStack_bs_of_nonEmpty _ rest rfl, hfirst]

/-- With frames, `annotate` sets the caller to the first when a caller is wanted, and the stack
trace to the frames but the last when a trace is wanted. -/
theorem annotate_cons (rt : Runtime) (log : Logger E) (frame : Frame) (rest : List Frame)
    (ce : HookedEntry E) (w : World E) :
    log.annotate rt (frame :: rest) ce w =
      ({ ce with
          ErrorOutput := some log.errorOutput,
          entry.caller := if log.addCaller then frame.toCaller else ce.entry.caller,
          entry.stack := if log.addStack.enabled ce.entry.level then
            framesText (frame :: rest.dropLast) else ce.entry.stack }, w) := by
  unfold annotate
  cases hc : log.addCaller <;> cases hs : log.addStack.enabled ce.entry.level <;>
    simp [hs, Depth.count, stackText_eq]

/-- `annotate` changes neither the hook, nor the cores, nor the level and message of the entry. -/
theorem annotate_keeps (rt : Runtime) (log : Logger E) (callers : List Frame) (ce : HookedEntry E)
    (w : World E) :
    (log.annotate rt callers ce w).1.after = ce.after ∧
      (log.annotate rt callers ce w).1.cores = ce.cores ∧
      (log.annotate rt callers ce w).1.entry.level = ce.entry.level ∧
      (log.annotate rt callers ce w).1.entry.message = ce.entry.message ∧
      (log.annotate rt callers ce w).1.entry.time = ce.entry.time ∧
      (log.annotate rt callers ce w).1.ErrorOutput = some log.errorOutput := by
  cases callers with
  | nil => simp [annotate_nil]
  | cons frame rest => simp [annotate_cons]

/-- The stack text of `annotate`: the lone frame, or what `Take` gives for the frames. -/
theorem framesText_dropLast_eq_Take (frame : Frame) (rest : List Frame) :
    framesText (frame :: rest.dropLast) =
      if rest = [] then frameText frame else Take (frame :: rest) := by
  split
  · rename_i hrest
    simp [hrest, framesText]
  · rename_i hrest
    rw [Take_eq, List.dropLast_cons_of_ne_nil hrest]

theorem annotate_spec (rt : Runtime) (log : Logger E) (ce : HookedEntry E) (w : World E) :
    log.annotate rt [] ce w =
      ({ ce with ErrorOutput := some log.errorOutput },
        if log.addCaller then
          (w.emit (.write log.errorOutput (callerErrText rt ce.entry.time))).emit
            (.sync log.errorOutput)
        else w) ∧
    ∀ frame rest, log.annotate rt (frame :: rest) ce w =
      ({ ce with
          ErrorOutput := some log.errorOutput,
          entry.caller := if log.addCaller then frame.toCaller else ce.entry.caller,
          entry.stack := if log.addStack.enabled ce.entry.level then
            (if rest = [] then frameText frame else Take (frame :: rest))
            else ce.entry.stack }, w) := by
  refine ⟨annotate_nil rt log ce w, fun frame rest => ?_⟩
  rw [annotate_cons, framesText_dropLast_eq_Take]

/-- An entry a core accepted gets the level's hook, and no error output yet. -/
theorem after_ofChecked (log : Logger E) (ent : Entry) (c : CheckedEntry E) :
    log.after ent (some (HookedEntry.ofChecked c)) = some ⟨c, log.terminalHook ent.level, none⟩ := by
  unfold after terminalHook
  split_ifs <;> simp_all [HookedEntry.After, HookedEntry.ofChecked]

/-- How a call at `lvl` ends, by the hook `check` sets: on the message, or returning without one. -/
def ending (log : Logger E) (lvl : Level) (msg : List UInt8) : Ending :=
  ((log.terminalHook lvl).map fun hook => hook.OnWrite msg).getD .returns

/-- A call returns exactly when its level sets no hook: below `DPanicLevel`, and at `DPanicLevel`
out of development. -/
theorem ending_eq_returns_iff (log : Logger E) (lvl : Level) (msg : List UInt8) :
    log.ending lvl msg = .returns ↔
      ¬(lvl = PanicLevel ∨ lvl = FatalLevel ∨ lvl = DPanicLevel ∧ log.development = true) := by
  have hpanic := @terminalHookOverride_ne_returns (.action .WriteThenPanic) msg
    (by simp [CheckWriteHook.OnWrite]) log.onPanic
  have hfatal := @terminalHookOverride_ne_returns (.action .WriteThenFatal) msg
    (by simp [CheckWriteHook.OnWrite]) log.onFatal
  unfold ending terminalHook
  by_cases hp : lvl = PanicLevel
  · rw [if_pos hp]
    simp [hp, hpanic]
  rw [if_neg hp]
  by_cases hf : lvl = FatalLevel
  · rw [if_pos hf]
    simp [hf, hfatal]
  rw [if_neg hf]
  by_cases hd : lvl = DPanicLevel ∧ log.development = true
  · rw [if_pos hd]
    simp [hd, hpanic]
  · rw [if_neg hd]
    simp [hp, hf, hd]

section Ending

variable (ops : EncoderOps E) (rt : Runtime)

/-- `check` leaves the level's hook on the message it was given, if it leaves an entry. -/
theorem check_hook {log : Logger E} {now : Go.Time} {callers : List Frame} {lvl : Level}
    {msg : List UInt8} {w : World E} {ce : Option (HookedEntry E)} {w' : World E}
    (h : log.check ops rt now callers lvl msg w = some (ce, w')) :
    ce.bind HookedEntry.after = log.terminalHook lvl ∧ ∀ c ∈ ce, c.entry.message = msg := by
  unfold check at h
  split at h
  · -- a disabled level below `DPanicLevel`: no entry
    rename_i hlow
    cases h
    exact ⟨(terminalHook_of_lt hlow.1).symm, by simp⟩
  · obtain ⟨⟨checked, w₁⟩, hchk, h⟩ := Option.bind_eq_some_iff.mp h
    set ent := log.newEntry now lvl msg
    -- the cores only add themselves to the entry: what they return is for `ent`
    have hext := Core.check_extends ops log.core ent none w hchk
    have hofc : ∀ c ∈ checked.map HookedEntry.ofChecked, c.entry.message = ent.message := by
      cases checked with
      | none => simp
      | some y =>
        rintro c ⟨⟩
        exact congrArg Entry.message hext.1
    have hhook : (log.after ent (checked.map HookedEntry.ofChecked)).bind HookedEntry.after =
        log.terminalHook lvl := by
      rw [after_hook]
      cases checked <;> simp [HookedEntry.ofChecked, ent]
    have hmsg := after_message log ent hofc
    dsimp only at h
    split at h
    · -- an accepted entry, annotated
      rename_i c hc
      have hce : ce = some (log.annotate rt callers c w₁).1 :=
        (congrArg Prod.fst (Option.some.inj h)).symm
      subst hce
      obtain ⟨hafter, -, -, hmessage, -, -⟩ := annotate_keeps rt log callers c w₁
      refine ⟨?_, ?_⟩
      · rw [Option.bind_some, hafter, ← hhook, hc, Option.bind_some]
      · rintro _ ⟨⟩
        rw [hmessage]
        exact hmsg c hc
    · simp only [pure, Option.some.injEq, Prod.mk.injEq] at h
      obtain ⟨rfl, -⟩ := h
      exact ⟨hhook, hmsg⟩

/-- `Write` ends in the hook of the entry, on its message. -/
theorem Write_ending {ce : HookedEntry E} {fields : List Field} {w : World E} {e : Ending}
    {w' : World E} (h : ce.Write ops rt fields w = some (e, w')) :
    e = (ce.after.map fun hook => hook.OnWrite ce.entry.message).getD .returns := by
  unfold HookedEntry.Write at h
  obtain ⟨w₁, -, h⟩ := Option.bind_eq_some_iff.mp h
  exact (congrArg Prod.fst (Option.some.inj h)).symm

/-- After `check`, the `Write` of its entry ends as the level says, and with no entry the level
says to return. -/
theorem check_ending {log : Logger E} {now : Go.Time} {callers : List Frame} {lvl : Level}
    {msg : List UInt8} {w : World E} {ce : Option (HookedEntry E)} {w₁ : World E}
    (h : log.check ops rt now callers lvl msg w = some (ce, w₁)) :
    (ce = none → log.ending lvl msg = .returns) ∧
      ∀ c ∈ ce, ∀ {fields : List Field} {w₂ : World E} {e : Ending} {w' : World E},
        c.Write ops rt fields w₂ = some (e, w') → e = log.ending lvl msg := by
  obtain ⟨hhook, hmsg⟩ := check_hook ops rt h
  refine ⟨?_, ?_⟩
  · rintro rfl
    rw [ending, ← hhook]
    rfl
  · intro c hc fields w₂ e w' hw
    cases hc
    rw [Write_ending ops rt hw, ending, ← hhook, hmsg c rfl]
    rfl

theorem Log_ending {log : Logger E} {now : Go.Time} {callers : List Frame} {lvl : Level}
    {msg : List UInt8} {fields : List Field} {w : World E} {e : Ending} {w' : World E}
    (h : log.Log ops rt now callers lvl msg fields w = some (e, w')) :
    e = log.ending lvl msg ∧
      (e = .returns ↔
        ¬(lvl = PanicLevel ∨ lvl = FatalLevel ∨ lvl = DPanicLevel ∧ log.development = true)) := by
  have he : e = log.ending lvl msg := by
    unfold Log at h
    obtain ⟨⟨ce, w₁⟩, hchk, h⟩ := Option.bind_eq_some_iff.mp h
    obtain ⟨hnone, hsome⟩ := check_ending ops rt hchk
    cases ce with
    | none =>
      -- no entry, so no hook: the level sets none
      simp only [pure, Option.some.injEq, Prod.mk.injEq] at h
      rw [← h.1, hnone rfl]
    | some c => exact hsome c rfl h
  exact ⟨he, he ▸ ending_eq_returns_iff log lvl msg⟩

/-- A panic on a logger with no core: the call panics with its message, and writes nothing. -/
theorem Log_ending_nop_panic :
    (NewNop 2 : Logger JsonEncoder).Log (jsonEncoderOps JsonEncoder.constRuntime)
        JsonEncoder.constRuntime JsonEncoder.sampleEntry.time [] PanicLevel [0x62] [] World.empty =
      some (.panics [0x62], World.empty) ∧
    Ending.panics [0x62] = (NewNop 2 : Logger JsonEncoder).ending PanicLevel [0x62] ∧
      (Ending.panics [0x62] = .returns ↔
        ¬(PanicLevel = PanicLevel ∨ PanicLevel = FatalLevel ∨
          PanicLevel = DPanicLevel ∧ (NewNop 2 : Logger JsonEncoder).development = true)) := by
  have h : (NewNop 2 : Logger JsonEncoder).Log (jsonEncoderOps JsonEncoder.constRuntime)
      JsonEncoder.constRuntime JsonEncoder.sampleEntry.time [] PanicLevel [0x62] [] World.empty =
      some (.panics [0x62], World.empty) := by
    have hlt : ¬(PanicLevel < DPanicLevel) := by decide
    simp [Log, check, newEntry, NewNop, Core.check, hlt, after, HookedEntry.After, HookedEntry.Write,
      CheckedEntry.write, Core.writeList, terminalHookOverride, CheckWriteHook.OnWrite]
  exact ⟨h, Log_ending _ _ h⟩

/-- Below `DPanicLevel`, a level the core does not enable leaves no entry and no trace. -/
theorem check_disabled {log : Logger E} {now : Go.Time} {callers : List Frame} {lvl : Level}
    {msg : List UInt8} {w : World E} (hlt : lvl < DPanicLevel)
    (hen : Core.enabled w log.core lvl = false) :
    log.check ops rt now callers lvl msg w = some (none, w) := by
  unfold check
  rw [if_pos ⟨hlt, hen⟩]

/-- A logger on one leaf that enables the level: the entry is encoded and written to the leaf's
output. A write that fails returns without the sync and puts the error line on the logger's
error output, synced; otherwise the output is synced above `ErrorLevel`. -/
theorem Log_NewCore {log : Logger E} {enc : E} {out : Nat} {enab : LevelEnabler}
    (hcore : log.core = NewCore enc out enab) {lvl : Level} (hen : enab.enabled lvl = true)
    (now : Go.Time) (callers : List Frame) (msg : List UInt8) (fields : List Field)
    (w : World E) :
    log.Log ops rt now callers lvl msg fields w =
      let r := log.annotate rt callers
        ⟨⟨log.newEntry now lvl msg, [log.core]⟩, log.terminalHook lvl, none⟩ w
      (ops.encodeEntry enc r.1.entry fields).map fun bs =>
        (log.ending lvl msg,
          match r.2.writeErr out bs with
          | some err =>
            ((r.2.emit (.write out bs)).emit
              (.write log.errorOutput (writeErrText rt now [err]))).emit (.sync log.errorOutput)
          | none =>
            if lvl > ErrorLevel then (r.2.emit (.write out bs)).emit (.sync out)
            else r.2.emit (.write out bs)) := by
  have hfast : ¬(lvl < DPanicLevel ∧ Core.enabled w log.core lvl = false) := by
    rw [hcore, NewCore, Core.enabled_io, hen]
    simp
  have hchk : Core.check ops log.core (log.newEntry now lvl msg) none w =
      some (some ⟨log.newEntry now lvl msg, [log.core]⟩, w) := by
    rw [hcore, NewCore, Core.check, newEntry_level, if_pos hen]
    rfl
  obtain ⟨hafter, hcores, hlevel, hmsg, htime, herr⟩ := annotate_keeps rt log callers
    ⟨⟨log.newEntry now lvl msg, [log.core]⟩, log.terminalHook lvl, none⟩ w
  set r := log.annotate rt callers
    ⟨⟨log.newEntry now lvl msg, [log.core]⟩, log.terminalHook lvl, none⟩ w with hr
  have hcheck : log.check ops rt now callers lvl msg w = some (some r.1, r.2) := by
    unfold check
    rw [if_neg hfast]
    simp [hchk, after_ofChecked, hr, Prod.map]
  unfold Log
  rw [hcheck]
  -- the entry goes to the one core, which encodes it and writes it
  cases henc : ops.encodeEntry enc r.1.entry fields with
  | none =>
    simp [HookedEntry.Write, CheckedEntry.write, Core.writeList, hcores, hcore, NewCore, Core.write,
      henc]
  | some bs =>
    cases hwe : r.2.writeErr out bs with
    | some e =>
      simp [HookedEntry.Write, CheckedEntry.write, Core.writeList, hcores, hcore, NewCore,
        Core.write, henc, hwe, hafter, hmsg, htime, herr, ending]
    | none =>
      simp [HookedEntry.Write, CheckedEntry.write, Core.writeList, hcores, hcore, NewCore,
        Core.write, henc, hwe, hlevel, hafter, hmsg, ending]
      split <;> rfl

/-- The logger on a JSON core that takes every entry, with its errors on the output `2`. -/
def jsonLogger : Logger JsonEncoder := New Core.jsonLeaf 2

/-- An entry at `InfoLevel` from it: annotated, then encoded and written to the output `0`. -/
theorem Log_NewCore_jsonLogger :
    jsonLogger.core =
        NewCore (newJSONEncoder JsonEncoder.constRuntime JsonEncoder.sampleEncoderConfig false) 0
          ⟨fun _ => true, none⟩ ∧
      (⟨fun _ => true, none⟩ : LevelEnabler).enabled InfoLevel = true ∧
      jsonLogger.Log (jsonEncoderOps JsonEncoder.constRuntime) JsonEncoder.constRuntime
          JsonEncoder.sampleEntry.time [] InfoLevel [0x62] [] World.empty =
        let r := jsonLogger.annotate JsonEncoder.constRuntime []
          ⟨⟨jsonLogger.newEntry JsonEncoder.sampleEntry.time InfoLevel [0x62], [jsonLogger.core]⟩,
            jsonLogger.terminalHook InfoLevel, none⟩ World.empty
        ((jsonEncoderOps JsonEncoder.constRuntime).encodeEntry
            (newJSONEncoder JsonEncoder.constRuntime JsonEncoder.sampleEncoderConfig false)
            r.1.entry []).map fun bs =>
          (jsonLogger.ending InfoLevel [0x62],
            match r.2.writeErr 0 bs with
            | some err =>
              ((r.2.emit (.write 0 bs)).emit (.write jsonLogger.errorOutput
                (writeErrText JsonEncoder.constRuntime JsonEncoder.sampleEntry.time [err]))).emit
                (.sync jsonLogger.errorOutput)
            | none =>
              if InfoLevel > ErrorLevel then (r.2.emit (.write 0 bs)).emit (.sync 0)
              else r.2.emit (.write 0 bs)) :=
  ⟨rfl, rfl, Log_NewCore (jsonEncoderOps JsonEncoder.constRuntime) JsonEncoder.constRuntime rfl rfl
    _ _ _ _ _⟩

end Ending

/-! ### Names -/

theorem Named_run (log : Logger E) (names : List (List UInt8)) :
    names.foldl Named log =
      { log with name := [0x2E].intercalate ((log.name :: names).filter fun s => s ≠ []) } := by
  induction names using List.reverseRecOn with
  | nil =>
    cases log with
    | mk core development addCaller onPanic onFatal name errorOutput addStack =>
      by_cases h : name = [] <;> simp [h]
  | append_singleton names s ih =>
    -- the segments so far are not empty, so they join to nothing only when there is none
    have hF : ∀ x ∈ (log.name :: names).filter (fun s => s ≠ []), x ≠ [] := by
      intro x hx
      simpa using (List.mem_filter.mp hx).2
    rw [List.foldl_append, List.foldl_cons, List.foldl_nil, ih, ← List.cons_append,
      List.filter_append]
    unfold Named
    by_cases hs : s = []
    · simp [hs]
    · rw [if_neg hs]
      by_cases hN : [0x2E].intercalate ((log.name :: names).filter fun s => s ≠ []) = []
      · have hnil := (List.intercalate_eq_nil_iff [0x2E] hF).mp hN
        rw [if_pos hN, hnil]
        simp [hs]
      · have hne : (log.name :: names).filter (fun s => s ≠ []) ≠ [] := by
          intro h
          exact hN (by rw [h]; rfl)
        have hs' : [s].filter (fun s => s ≠ []) = [s] := by simp [hs]
        rw [if_neg hN, hs', List.intercalate_concat _ _ _ hne]

end Logger

end Lad
