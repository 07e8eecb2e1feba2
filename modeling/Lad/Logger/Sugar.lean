import Lad.Logger.Options
import Lad.Sugar
import Lad.Ladcore.WriteSyncer

/-!
# The sugared logger

The `...w` methods read their arguments with `sweetenFields` once the wrapped logger's `check`
has left an entry, report what they cannot read at `ErrorLevel`, and end as the wrapped
logger's call at the same level ends (`log_ending`).
-/

namespace Lad

open Go stacktrace

variable {E α : Type}

def lad.Array (key : List UInt8) (val : ArrayMarshaler) : Field :=
  ⟨key, .arrayMarshalerType, 0, [], .arrayMarshaler val⟩

def oddNumberErrMsg : List UInt8 := ascii "Ignored key without a value."

def nonStringKeyErrMsg : List UInt8 := ascii "Ignored key-value pairs with non-string keys."

def multipleErrMsg : List UInt8 := ascii "Multiple errors without a key."

section Reports

variable (Any : List UInt8 → lad.SugarArg α → Field)

/-- `invalidPair.MarshalLogObject`: the position, then the key and the value through `Any`;
`none` where their `AddTo` panics. -/
def lad.invalidPair.MarshalLogObject (p : lad.invalidPair α) : Option ObjectMarshaler :=
  (addFields [Any (ascii "key") p.key, Any (ascii "value") p.value]).map fun m =>
    .add (ascii "position") (.prim (.int64 p.position)) m

/-- The loop of `invalidPairs.MarshalLogArray` on the pairs' objects: each appended, the errors
`AppendObject` returns joined. -/
def appendObjects (err : Option Err) : List ObjectMarshaler → ArrayMarshaler
  | [] => .ret err
  | m :: ms => .appendObject m fun e => appendObjects (multierrAppend err e) ms

def lad.invalidPairs.MarshalLogArray (ps : List (lad.invalidPair α)) : Option ArrayMarshaler :=
  (ps.mapM fun p : lad.invalidPair α => p.MarshalLogObject Any).map (appendObjects none)

/-- The call `sweetenFields` makes on the wrapped logger for a report: `Error` with the report's
message and field. -/
def lad.SugarReport.call : lad.SugarReport α → Option (List UInt8 × Field)
  | .multipleErrors f => some (multipleErrMsg, f)
  | .oddNumber f => some (oddNumberErrMsg, f)
  | .nonStringKeys invalid =>
    (lad.invalidPairs.MarshalLogArray Any invalid).map fun m =>
      (nonStringKeyErrMsg, lad.Array (ascii "invalid") m)

end Reports

structure SugaredLogger (E : Type) where
  base : Logger E

/-- `Sugar()`; the caller skip it adds is left out with the skip. -/
def Logger.Sugar (log : Logger E) : SugaredLogger E := ⟨log⟩

namespace SugaredLogger

def Desugar (s : SugaredLogger E) : Logger E := s.base

def Named (s : SugaredLogger E) (name : List UInt8) : SugaredLogger E := ⟨s.base.Named name⟩

section Log

variable (ops : EncoderOps E) (rt : Runtime) (Any : List UInt8 → lad.SugarArg α → Field)

def WithOptions (s : SugaredLogger E) (opts : List (LoggerOption E)) (w : World E) :
    Option (SugaredLogger E × World E) :=
  (s.base.WithOptions ops opts w).map fun r => (⟨r.1⟩, r.2)

/-- `sweetenFields(args)`: the fields, with each report logged in turn through the wrapped
logger's `Error`, at the time `now` and with the frames `callers` that those calls see. -/
def sweetenFields (s : SugaredLogger E) (now : Go.Time) (callers : List Frame)
    (args : List (lad.SugarArg α)) (w : World E) : Option (List Field × World E) := do
  let (fields, reports) := lad.sweetenFields Any args
  let w ← reports.foldlM (fun w r => do
    let (msg, f) ← r.call Any
    let (_, w) ← s.base.Error ops rt now callers msg [f] w
    pure w) w
  pure (fields, w)

def With (s : SugaredLogger E) (now : Go.Time) (callers : List Frame)
    (args : List (lad.SugarArg α)) (w : World E) : Option (SugaredLogger E × World E) := do
  let (fields, w) ← s.sweetenFields ops rt Any now callers args w
  let (base, w) ← s.base.With ops fields w
  pure (⟨base⟩, w)

def WithLazy (s : SugaredLogger E) (now : Go.Time) (callers : List Frame)
    (args : List (lad.SugarArg α)) (w : World E) : Option (SugaredLogger E × World E) := do
  let (fields, w) ← s.sweetenFields ops rt Any now callers args w
  let (base, w) := s.base.WithLazy fields w
  pure (⟨base⟩, w)

/-- `log(lvl, template, fmtArgs, context)`, with the message `getMessage` makes of the template
and its arguments; the call is at `now` with the frames `callers`, and the report calls at
`rnow` with the frames `rcallers`. -/
def log (s : SugaredLogger E) (now : Go.Time) (callers : List Frame) (rnow : Go.Time)
    (rcallers : List Frame) (lvl : Level) (msg : List UInt8) (context : List (lad.SugarArg α))
    (w : World E) : Option (Ending × World E) :=
  -- the arguments are not read for a disabled level below `DPanicLevel`
  if lvl < DPanicLevel ∧ Core.enabled w s.base.core lvl = false then some (.returns, w)
  else do
    let (ce, w) ← s.base.check ops rt now callers lvl msg w
    match ce with
    | none => pure (.returns, w)
    | some ce =>
      let (fields, w) ← s.sweetenFields ops rt Any rnow rcallers context w
      ce.Write ops rt fields w

/-- `Logw(lvl, msg, keysAndValues...)`: `getMessage` of a template with no argument is the
template itself. -/
def Logw (s : SugaredLogger E) (now : Go.Time) (callers : List Frame) (rnow : Go.Time)
    (rcallers : List Frame) (lvl : Level) (msg : List UInt8)
    (keysAndValues : List (lad.SugarArg α)) (w : World E) : Option (Ending × World E) :=
  s.log ops rt Any now callers rnow rcallers lvl msg keysAndValues w

/-- `Debugw`, `Infow`, `Warnw`, `Errorw`, `DPanicw`, `Panicw` and `Fatalw`: `Logw` at their
levels. -/
def Debugw (s : SugaredLogger E) (now : Go.Time) (callers : List Frame) (rnow : Go.Time)
    (rcallers : List Frame) (msg : List UInt8) (keysAndValues : List (lad.SugarArg α))
    (w : World E) : Option (Ending × World E) :=
  s.Logw ops rt Any now callers rnow rcallers DebugLevel msg keysAndValues w
def Infow (s : SugaredLogger E) (now : Go.Time) (callers : List Frame) (rnow : Go.Time)
    (rcallers : List Frame) (msg : List UInt8) (keysAndValues : List (lad.SugarArg α))
    (w : World E) : Option (Ending × World E) :=
  s.Logw ops rt Any now callers rnow rcallers InfoLevel msg keysAndValues w
def Warnw (s : SugaredLogger E) (now : Go.Time) (callers : List Frame) (rnow : Go.Time)
    (rcallers : List Frame) (msg : List UInt8) (keysAndValues : List (lad.SugarArg α))
    (w : World E) : Option (Ending × World E) :=
  s.Logw ops rt Any now callers rnow rcallers WarnLevel msg keysAndValues w
def Errorw (s : SugaredLogger E) (now : Go.Time) (callers : List Frame) (rnow : Go.Time)
    (rcallers : List Frame) (msg : List UInt8) (keysAndValues : List (lad.SugarArg α))
    (w : World E) : Option (Ending × World E) :=
  s.Logw ops rt Any now callers rnow rcallers ErrorLevel msg keysAndValues w
def DPanicw (s : SugaredLogger E) (now : Go.Time) (callers : List Frame) (rnow : Go.Time)
    (rcallers : List Frame) (msg : List UInt8) (keysAndValues : List (lad.SugarArg α))
    (w : World E) : Option (Ending × World E) :=
  s.Logw ops rt Any now callers rnow rcallers DPanicLevel msg keysAndValues w
def Panicw (s : SugaredLogger E) (now : Go.Time) (callers : List Frame) (rnow : Go.Time)
    (rcallers : List Frame) (msg : List UInt8) (keysAndValues : List (lad.SugarArg α))
    (w : World E) : Option (Ending × World E) :=
  s.Logw ops rt Any now callers rnow rcallers PanicLevel msg keysAndValues w
def Fatalw (s : SugaredLogger E) (now : Go.Time) (callers : List Frame) (rnow : Go.Time)
    (rcallers : List Frame) (msg : List UInt8) (keysAndValues : List (lad.SugarArg α))
    (w : World E) : Option (Ending × World E) :=
  s.Logw ops rt Any now callers rnow rcallers FatalLevel msg keysAndValues w

/-! ### The sugared call against the wrapped logger's -/

/-- Arguments read without a report are read without a call on the logger. -/
theorem sweetenFields_of_nil (s : SugaredLogger E) (now : Go.Time) (callers : List Frame)
    {args : List (lad.SugarArg α)} (hrep : (lad.sweetenFields Any args).2 = []) (w : World E) :
    s.sweetenFields ops rt Any now callers args w = some ((lad.sweetenFields Any args).1, w) := by
  unfold sweetenFields
  cases hsw : lad.sweetenFields Any args with
  | mk fields reports =>
    rw [hsw] at hrep
    cases hrep
    rfl

theorem log_ending {s : SugaredLogger E} {now : Go.Time} {callers : List Frame} {rnow : Go.Time}
    {rcallers : List Frame} {lvl : Level} {msg : List UInt8} {context : List (lad.SugarArg α)}
    {w : World E} {e : Ending} {w' : World E}
    (h : s.log ops rt Any now callers rnow rcallers lvl msg context w = some (e, w')) :
    e = s.base.ending lvl msg := by
  unfold log at h
  split at h
  · -- a disabled level below `DPanicLevel`: the call returns, as the level says
    rename_i hfast
    cases h
    rw [Logger.ending, Logger.terminalHook_of_lt hfast.1]
    rfl
  · obtain ⟨⟨ce, w₁⟩, hchk, h⟩ := Option.bind_eq_some_iff.mp h
    obtain ⟨hnone, hsome⟩ := Logger.check_ending ops rt hchk
    cases ce with
    | none =>
      simp only [pure, Option.some.injEq, Prod.mk.injEq] at h
      rw [← h.1, hnone rfl]
    | some c =>
      -- the reports are logged before the entry, and the entry's hook decides
      obtain ⟨⟨fields, w₂⟩, -, h⟩ := Option.bind_eq_some_iff.mp h
      exact hsome c rfl h

theorem log_eq_Log (s : SugaredLogger E) (now : Go.Time) (callers : List Frame) (rnow : Go.Time)
    (rcallers : List Frame) (lvl : Level) (msg : List UInt8) {context : List (lad.SugarArg α)}
    (hrep : (lad.sweetenFields Any context).2 = []) (w : World E) :
    s.log ops rt Any now callers rnow rcallers lvl msg context w =
      s.base.Log ops rt now callers lvl msg (lad.sweetenFields Any context).1 w := by
  unfold log Logger.Log
  split
  · rename_i hfast
    rw [Logger.check_disabled ops rt hfast.1 hfast.2]
    rfl
  · -- past the level, both calls check the entry, and write it with the same fields
    congr 1
    funext r
    rcases r with ⟨_ | ce, w₁⟩
    · rfl
    · simp only [sweetenFields_of_nil ops rt Any s rnow rcallers hrep w₁]
      rfl

end Log

end SugaredLogger

end Lad
