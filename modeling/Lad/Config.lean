import Mathlib.Data.Finset.Lattice.Fold
import Mathlib.Order.Lattice.Nat
import Lad.Ladcore.LevelText
import Lad.Ladcore.JsonEncoder.EncodeEntry

/-!
# Building a logger from a `Config`

`Config.Build` builds the encoder, opens the output sinks and then the error sinks, and only
then checks the level. The model keeps the set of open sinks; `newSink` is a parameter
(`SinkOpener`). Every error but `missing Level` returns with the sinks as they were
(`Build_err_closed`); `missing Level` leaves both sets open (`Build_missingLevel_open`).
-/

namespace Lad

open JsonEncoder

/-- A sink, by the identity it is opened under. -/
abbrev SinkId := Nat

/-- `_sinkRegistry.newSink(path)` and the factory it calls, as an effect on the sinks open: an
error, or a sink that is not open yet. -/
structure SinkOpener where
  newSink : List UInt8 → Finset SinkId → Except Err SinkId
  fresh : ∀ path opened id, newSink path opened = .ok id → id ∉ opened

/-- The error of `open`: the errors of the paths that failed, each `"open sink %q: %w"` of the
path and the error of `newSink`, in order, as `multierr` combines them; none when empty. -/
abbrev OpenError := List (List UInt8 × Err)

/-- `Close()` of every sink, in order: the `closeAll` that `open` returns. -/
def closeAll (closers : List SinkId) (opened : Finset SinkId) : Finset SinkId :=
  closers.foldl (fun opened c => opened.erase c) opened

namespace SinkOpener

variable (op : SinkOpener)

/-- `newSink(path)`: the sink it opens is open afterwards. -/
def openSink (path : List UInt8) (opened : Finset SinkId) : Except Err SinkId × Finset SinkId :=
  match op.newSink path opened with
  | .ok sink => (.ok sink, insert sink opened)
  | .error err => (.error err, opened)

/-- The loop of `open`, with the writers so far and the errors so far. -/
def openLoop : List (List UInt8) → List SinkId × OpenError → Finset SinkId →
    (List SinkId × OpenError) × Finset SinkId
  | [], acc, opened => (acc, opened)
  | path :: paths, acc, opened =>
    match op.openSink path opened with
    | (.error err, opened) => openLoop paths (acc.1, acc.2 ++ [(path, err)]) opened
    | (.ok sink, opened) => openLoop paths (acc.1 ++ [sink], acc.2) opened

/-- `open(paths)`: every path is opened, whatever the earlier ones gave; on an error the sinks
opened are closed. On success, the writers, which are also what `closeAll` closes. -/
def «open» (paths : List (List UInt8)) (opened : Finset SinkId) :
    Except OpenError (List SinkId) × Finset SinkId :=
  match op.openLoop paths ([], []) opened with
  | ((writers, openErr), opened) =>
    if openErr ≠ [] then (.error openErr, closeAll writers opened)
    else (.ok writers, opened)

/-- `Open(paths...)`: `open`, whose writers are combined into one syncer; the model keeps the
sinks its close function closes. -/
def Open (paths : List (List UInt8)) (opened : Finset SinkId) :
    Except OpenError (List SinkId) × Finset SinkId :=
  op.«open» paths opened

end SinkOpener

/-! ### What each step does to the open sinks -/

theorem closeAll_eq (closers : List SinkId) (s : Finset SinkId) :
    closeAll closers s = s \ closers.toFinset := by
  induction closers generalizing s with
  | nil => simp [closeAll]
  | cons c cs ih =>
    have hrest := ih (s.erase c)
    simp only [closeAll, List.foldl_cons] at hrest ⊢
    rw [hrest, List.toFinset_cons, Finset.sdiff_insert, Finset.erase_sdiff_comm]

namespace SinkOpener

variable (op : SinkOpener)

/-- The loop opens one sink for each path that does not fail, none of them open before. -/
theorem openLoop_eq (paths : List (List UInt8)) :
    ∀ (acc : List SinkId × OpenError) (s : Finset SinkId), ∃ ws errs,
      op.openLoop paths acc s = ((acc.1 ++ ws, acc.2 ++ errs), s ∪ ws.toFinset) ∧
        Disjoint s ws.toFinset := by
  induction paths with
  | nil => intro acc s; exact ⟨[], [], by simp [openLoop], by simp⟩
  | cons path paths ih =>
    intro acc s
    rcases hp : op.newSink path s with err | sink
    · -- the path fails: the sinks are as they were
      obtain ⟨ws, errs, hrun, hdisj⟩ := ih (acc.1, acc.2 ++ [(path, err)]) s
      refine ⟨ws, (path, err) :: errs, ?_, hdisj⟩
      simp [openLoop, openSink, hp, hrun]
    · -- the path opens `sink`, which was not open
      have hfresh := op.fresh path s sink hp
      obtain ⟨ws, errs, hrun, hdisj⟩ := ih (acc.1 ++ [sink], acc.2) (insert sink s)
      refine ⟨sink :: ws, errs, ?_, ?_⟩
      · simp [openLoop, openSink, hp, hrun, Finset.insert_union]
      · rw [List.toFinset_cons, Finset.disjoint_insert_right]
        exact ⟨hfresh, Finset.disjoint_of_subset_left (Finset.subset_insert _ _) hdisj⟩

/-- `open` either succeeds with its sinks open, none of them open before, or fails and closes
every sink it opened. -/
theorem open_eq (paths : List (List UInt8)) (s : Finset SinkId) :
    (∃ ws, op.«open» paths s = (.ok ws, s ∪ ws.toFinset) ∧ Disjoint s ws.toFinset) ∨
      ∃ err, op.«open» paths s = (.error err, s) := by
  obtain ⟨ws, errs, hrun, hdisj⟩ := op.openLoop_eq paths ([], []) s
  by_cases herrs : errs = []
  · refine .inl ⟨ws, ?_, hdisj⟩
    simp [«open», hrun, herrs]
  · refine .inr ⟨errs, ?_⟩
    simp [«open», hrun, herrs, closeAll_eq, Finset.union_sdiff_cancel_right hdisj]

end SinkOpener

/-! ### The encoder -/

/-- The errors of `newEncoder`: `"missing EncodeTime in EncoderConfig"`,
`errNoEncoderNameSpecified`, `"no encoder registered for name %q"`, and the error of the
constructor. -/
inductive EncoderError
  | missingEncodeTime
  | noEncoderNameSpecified
  | notRegistered (name : List UInt8)
  | constructor (err : Err)
  deriving DecidableEq, Repr

/-- `_encoderNameToConstructor` as registered at start: `console` and `json`, which do not
fail. -/
def encoderNameToConstructor : List (List UInt8 × (EncoderConfig → Option Err)) :=
  [(ascii "console", fun _ => none), (ascii "json", fun _ => none)]

/-- `newEncoder(name, encoderConfig)`, by its error; `constructors` are the registered ones. -/
def newEncoder (constructors : List (List UInt8 × (EncoderConfig → Option Err)))
    (name : List UInt8) (encoderConfig : EncoderConfig) : Option EncoderError :=
  if encoderConfig.timeKey ≠ [] ∧ encoderConfig.encodeTime.isNone then some .missingEncodeTime
  else if name = [] then some .noEncoderNameSpecified
  else
    match constructors.lookup name with
    | none => some (.notRegistered name)
    | some constructor => (constructor encoderConfig).map .constructor

/-! ### `Config.Build` -/

/-- `Config`, the fields `Build` reads before its last error. -/
structure Config where
  Level : AtomicLevel
  Encoding : List UInt8
  EncoderConfig : Lad.EncoderConfig
  OutputPaths : List (List UInt8)
  ErrorOutputPaths : List (List UInt8)

/-- The errors of `Build`: the encoder's, the sinks', and `"missing Level"`. -/
inductive BuildError
  | encoder (err : EncoderError)
  | openSinks (err : OpenError)
  | missingLevel
  deriving DecidableEq, Repr

namespace Config

variable (op : SinkOpener)

/-- `Config.openSinks()`: the output sinks and the error sinks. When the error sinks fail the
output sinks are closed; the close function of the error sinks is dropped. -/
def openSinks (cfg : Config) (opened : Finset SinkId) :
    Except OpenError (List SinkId × List SinkId) × Finset SinkId :=
  match op.Open cfg.OutputPaths opened with
  | (.error err, opened) => (.error err, opened)
  | (.ok closeOut, opened) =>
    match op.Open cfg.ErrorOutputPaths opened with
    | (.error err, opened) => (.error err, closeAll closeOut opened)
    | (.ok errSink, opened) => (.ok (closeOut, errSink), opened)

/-- `Config.Build()`: on success the sinks of the core and of `ErrorOutput`, the options and the
encoder being left out. -/
def Build (constructors : List (List UInt8 × (Lad.EncoderConfig → Option Err))) (cfg : Config)
    (opened : Finset SinkId) :
    Except BuildError (List SinkId × List SinkId) × Finset SinkId :=
  match newEncoder constructors cfg.Encoding cfg.EncoderConfig with
  | some err => (.error (.encoder err), opened)
  | none =>
    match openSinks op cfg opened with
    | (.error err, opened) => (.error (.openSinks err), opened)
    | (.ok (sink, errSink), opened) =>
      if cfg.Level = ⟨none⟩ then (.error .missingLevel, opened)
      else (.ok (sink, errSink), opened)

/-! ### Which errors close what was opened -/

/-- `openSinks` either succeeds with both sets of sinks open, none open before, or fails with
every sink it opened closed. -/
theorem openSinks_eq (cfg : Config) (s : Finset SinkId) :
    (∃ out es, openSinks op cfg s = (.ok (out, es), s ∪ out.toFinset ∪ es.toFinset) ∧
        Disjoint s out.toFinset ∧ Disjoint (s ∪ out.toFinset) es.toFinset) ∨
      ∃ err, openSinks op cfg s = (.error err, s) := by
  rcases op.open_eq cfg.OutputPaths s with ⟨out, hout, hdo⟩ | ⟨err, herr⟩
  · rcases op.open_eq cfg.ErrorOutputPaths (s ∪ out.toFinset) with ⟨es, hes, hde⟩ | ⟨err, herr⟩
    · exact .inl ⟨out, es, by simp [openSinks, SinkOpener.Open, hout, hes], hdo, hde⟩
    · -- the error sinks fail: the output sinks are closed again
      refine .inr ⟨err, ?_⟩
      simp [openSinks, SinkOpener.Open, hout, herr, closeAll_eq,
        Finset.union_sdiff_cancel_right hdo]
  · exact .inr ⟨err, by simp [openSinks, SinkOpener.Open, herr]⟩

/-- Every error of `Build` but `missing Level` returns with the sinks as they were. -/
theorem Build_err_closed (constructors : List (List UInt8 × (Lad.EncoderConfig → Option Err)))
    (cfg : Config) (s : Finset SinkId) {err : BuildError} {s' : Finset SinkId}
    (h : Build op constructors cfg s = (.error err, s')) (hlevel : err ≠ .missingLevel) : s' = s := by
  unfold Build at h
  split at h
  · exact (Prod.mk.inj h).2.symm
  · rcases openSinks_eq op cfg s with ⟨out, es, hos, -, -⟩ | ⟨e, hos⟩
    · -- the sinks are open; the only error left is the level
      rw [hos] at h
      split_ifs at h
      · exact absurd (Except.error.inj (Prod.mk.inj h).1).symm hlevel
      · simp at h
    · rw [hos] at h
      exact (Prod.mk.inj h).2.symm

end Config

namespace SinkOpener

theorem open_singleton (op : SinkOpener) {p : List UInt8} {s : Finset SinkId} {i : SinkId}
    (hp : op.newSink p s = .ok i) : op.«open» [p] s = (.ok [i], insert i s) := by
  simp [«open», openLoop, openSink, hp]

end SinkOpener

/-- A config with no level, one output path and one error path, which both open: `Build`
fails with `missing Level`, and the two sinks it opened, neither open before, are still open. -/
theorem Build_missingLevel_open (op : SinkOpener)
    (constructors : List (List UInt8 × (Lad.EncoderConfig → Option Err))) (cfg : Config)
    (s : Finset SinkId) (hlevel : cfg.Level = ⟨none⟩)
    (henc : newEncoder constructors cfg.Encoding cfg.EncoderConfig = none)
    {p q : List UInt8} (hout : cfg.OutputPaths = [p]) (herr : cfg.ErrorOutputPaths = [q])
    {i j : SinkId} (hp : op.newSink p s = .ok i) (hq : op.newSink q (insert i s) = .ok j) :
    Config.Build op constructors cfg s = (.error .missingLevel, insert j (insert i s)) ∧
      i ∉ s ∧ j ∉ insert i s := by
  have hos : Config.openSinks op cfg s = (.ok ([i], [j]), insert j (insert i s)) := by
    simp [Config.openSinks, SinkOpener.Open, hout, herr, op.open_singleton hp,
      op.open_singleton hq]
  refine ⟨?_, op.fresh p s i hp, op.fresh q _ j hq⟩
  simp [Config.Build, henc, hos, hlevel]

/-- A number past every open sink is not open. -/
theorem sup_succ_not_mem (opened : Finset SinkId) : opened.sup id + 1 ∉ opened := by
  intro hmem
  have hle : opened.sup id + 1 ≤ opened.sup id := Finset.le_sup (f := id) hmem
  exact Nat.not_succ_le_self _ hle

/-- An opener that never fails and numbers each sink past every open one. -/
def nextSinkOpener : SinkOpener where
  newSink _ opened := .ok (opened.sup id + 1)
  fresh _ opened _ h := Except.ok.inj h ▸ sup_succ_not_mem opened

/-- An opener with only `stderr` registered: every other path fails. -/
def stderrSinkOpener : SinkOpener where
  newSink path opened :=
    if path = ascii "stderr" then .ok (opened.sup id + 1) else .error (ascii "no sink")
  fresh path opened _ h := by
    -- only `stderr` opens, as the sink past every open one
    split_ifs at h
    exact Except.ok.inj h ▸ sup_succ_not_mem opened

/-- The error path fails after the output path opened: `Build` fails with the sinks error, and
the output sink is closed again. -/
theorem Build_err_closed_errorPath :
    Config.Build stderrSinkOpener encoderNameToConstructor
        ⟨⟨some InfoLevel⟩, ascii "json", sampleEncoderConfig, [ascii "stderr"], [ascii "x"]⟩ ∅ =
      (.error (.openSinks [(ascii "x", ascii "no sink")]), ∅) ∧
      BuildError.openSinks [(ascii "x", ascii "no sink")] ≠ .missingLevel ∧
      (∅ : Finset SinkId) = ∅ := by
  have h : Config.Build stderrSinkOpener encoderNameToConstructor
      ⟨⟨some InfoLevel⟩, ascii "json", sampleEncoderConfig, [ascii "stderr"], [ascii "x"]⟩ ∅ =
      (.error (.openSinks [(ascii "x", ascii "no sink")]), ∅) := by
    decide
  have hlevel : BuildError.openSinks [(ascii "x", ascii "no sink")] ≠ .missingLevel := by
    decide
  exact ⟨h, hlevel, Config.Build_err_closed _ _ _ _ h hlevel⟩

theorem Build_missingLevel_open_stderr :
    Config.Build nextSinkOpener encoderNameToConstructor
        ⟨⟨none⟩, ascii "json", sampleEncoderConfig, [ascii "stderr"], [ascii "stderr"]⟩ ∅ =
      (.error .missingLevel, insert 2 (insert 1 ∅)) ∧
      1 ∉ (∅ : Finset SinkId) ∧ 2 ∉ (insert 1 ∅ : Finset SinkId) :=
  Build_missingLevel_open nextSinkOpener encoderNameToConstructor _ ∅ rfl (by decide) rfl rfl
    (by decide) (by decide)

end Lad
