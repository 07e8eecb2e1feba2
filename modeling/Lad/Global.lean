import Mathlib.Data.List.DropRight
import Mathlib.Tactic.IntervalCases
import Lad.Logger.Sugar
import Lad.Lib.Scope

/-!
# The global loggers and the standard library's logger

The globals are one `Globals` value behind `_globalMu`. A session that calls the latest restore
function it holds refines the scope library's model (`Session.run_abs`), so a well-nested
session leaves the globals as it found them. `NewStdLogAt` logs each line `log.Logger` prints at
the level, trimmed of the white space around it (`Print_NewStdLogAt`).
-/

namespace Lad

open Scope

variable {E : Type}

/-! ### `ReplaceGlobals` -/

/-- `_globalL` and `_globalS`, which `L()` and `S()` return. Every write sets both. -/
structure Globals (E : Type) where
  L : Logger E
  S : SugaredLogger E
  sugar_eq : S = L.Sugar

/-- The globals before any replacement: `NewNop()` and its sugar. -/
def Globals.init (discard : Nat) : Globals E := ⟨NewNop discard, (NewNop discard).Sugar, rfl⟩

/-- A function `ReplaceGlobals` returned, `func() { ReplaceGlobals(prev) }`, by the logger it
captured. -/
structure RestoreFunc (E : Type) where
  prev : Logger E

/-- `ReplaceGlobals(logger)`: the globals it sets, and the function that puts back the logger
it replaced. -/
def ReplaceGlobals (logger : Logger E) (g : Globals E) : Globals E × RestoreFunc E :=
  (⟨logger, logger.Sugar, rfl⟩, ⟨g.L⟩)

/-- Calling a restore function; the function its own `ReplaceGlobals` returns is dropped. -/
def RestoreFunc.call (r : RestoreFunc E) (g : Globals E) : Globals E := (ReplaceGlobals r.prev g).1

@[simp] theorem ReplaceGlobals_L (logger : Logger E) (g : Globals E) :
    (ReplaceGlobals logger g).1.L = logger := rfl

@[simp] theorem ReplaceGlobals_prev (logger : Logger E) (g : Globals E) :
    (ReplaceGlobals logger g).2.prev = g.L := rfl

@[simp] theorem RestoreFunc.call_L (r : RestoreFunc E) (g : Globals E) : (r.call g).L = r.prev :=
  rfl

/-- Two globals with the same logger are the same: the sugared one follows. -/
theorem Globals.ext_L {g g' : Globals E} (h : g.L = g'.L) : g = g' := by
  obtain ⟨L, S, hS⟩ := g
  obtain ⟨L', S', hS'⟩ := g'
  dsimp only at h
  subst h hS hS'
  rfl

/-! ### Sessions over the globals -/

/-- The globals and the restore functions a program holds and has not called, latest first. -/
structure Session (E : Type) where
  globals : Globals E
  pending : List (RestoreFunc E)

namespace Session

/-- One locked section: `push l` is `ReplaceGlobals(l)`, keeping the function it returns, and
`pop` calls the latest function kept, as a deferred call does; with none kept it is stuck. -/
def step (s : Session E) : Op (Logger E) → Option (Session E)
  | .push l => some ⟨(ReplaceGlobals l s.globals).1, (ReplaceGlobals l s.globals).2 :: s.pending⟩
  | .pop =>
    match s.pending with
    | [] => none
    | r :: rs => some ⟨r.call s.globals, rs⟩

/-- A program, step by step. -/
def run (s : Session E) (ops : List (Op (Logger E))) : Option (Session E) := ops.foldlM step s

/-- What a session stands for: the global logger, and the loggers the pending functions put
back. -/
def abs (s : Session E) : Scoped (Logger E) := ⟨s.globals.L, s.pending.map RestoreFunc.prev⟩

/-- A step of the session is a step of the scoped logger. -/
theorem step_abs (s : Session E) (op : Op (Logger E)) : (s.step op).map abs = s.abs.step op := by
  obtain ⟨g, rs⟩ := s
  cases op with
  | push l => rfl
  | pop =>
    cases rs with
    | nil => rfl
    | cons r rs => rfl

/-- A run of the session is a run of the scoped logger. -/
theorem run_abs (s : Session E) (ops : List (Op (Logger E))) :
    (s.run ops).map abs = s.abs.run ops := by
  induction ops generalizing s with
  | nil => rfl
  | cons op ops ih =>
    have hstep := step_abs s op
    simp only [run, List.foldlM_cons, Scoped.run] at ih ⊢
    cases hs : s.step op with
    | none =>
      rw [hs] at hstep
      rw [← hstep]
      rfl
    | some s' =>
      rw [hs] at hstep
      rw [← hstep]
      exact ih s'

end Session

/-- A well-nested program of replacements and restores runs through and leaves `L()`, `S()` and
the restore functions still held as it found them. -/
theorem run_nested_globals {ops : List (Op (Logger E))} (h : Nested ops) (s : Session E) :
    ∃ s', s.run ops = some s' ∧ s'.globals = s.globals ∧
      s'.pending.map RestoreFunc.prev = s.pending.map RestoreFunc.prev := by
  have habs := Session.run_abs s ops
  rw [run_nested h] at habs
  obtain ⟨s', hrun, hs'⟩ := Option.map_eq_some_iff.mp habs
  refine ⟨s', hrun, Globals.ext_L ?_, ?_⟩
  · exact congrArg Scoped.current hs'
  · exact congrArg Scoped.saved hs'

theorem run_nested_globals_scope :
    ∃ s', (⟨Globals.init 2, []⟩ : Session JsonEncoder).run [.push Logger.jsonLogger, .pop] =
        some s' ∧ s'.globals = Globals.init 2 ∧ s'.pending.map RestoreFunc.prev = [] :=
  run_nested_globals (.scope Logger.jsonLogger .nil .nil) ⟨Globals.init 2, []⟩

/-! ### The standard library's logger -/

/-- A logging method, `func(msg string, fields ...Field)`, given the time and the frames of its
call. -/
abbrev LogFunc (E : Type) :=
  Go.Time → List stacktrace.Frame → List UInt8 → List Field → World E → Option (Ending × World E)

section StdLog

variable (ops : EncoderOps E) (rt : Runtime)

/-- `levelToFunc(logger, lvl)`, with `quote` for `strconv.Quote`, which `%q` applies to the
level's `String()`. -/
def levelToFunc (quote : List UInt8 → List UInt8) (logger : Logger E) (lvl : Level) :
    Except Err (LogFunc E) :=
  if lvl = DebugLevel then .ok (logger.Debug ops rt)
  else if lvl = InfoLevel then .ok (logger.Info ops rt)
  else if lvl = WarnLevel then .ok (logger.Warn ops rt)
  else if lvl = ErrorLevel then .ok (logger.Error ops rt)
  else if lvl = DPanicLevel then .ok (logger.DPanic ops rt)
  else if lvl = PanicLevel then .ok (logger.Panic ops rt)
  else if lvl = FatalLevel then .ok (logger.Fatal ops rt)
  else .error (ascii "unrecognized level: " ++ quote lvl.string)

/-- `asciiSpace` of package `bytes`: tab, newline, vertical tab, form feed, carriage return and
space. -/
def asciiSpace (c : UInt8) : Bool :=
  c == 0x09 || c == 0x0A || c == 0x0B || c == 0x0C || c == 0x0D || c == 0x20

/-- `bytes.TrimSpace(s)`, with `trimFunc` for `TrimFunc(_, unicode.IsSpace)`. The loop from the
front stops at the first byte that is not an ASCII space and hands what is left to `trimFunc`
if that byte is past ASCII; the loop from the back does the same with what lies between. -/
def bytes.TrimSpace (trimFunc : List UInt8 → List UInt8) (s : List UInt8) : List UInt8 :=
  let t := s.dropWhile asciiSpace
  match t.head? with
  | none => []
  | some c =>
    if Utf8.RuneSelf ≤ c.toNat then trimFunc t
    else
      let u := t.rdropWhile asciiSpace
      match u.getLast? with
      | none => []
      | some c' => if Utf8.RuneSelf ≤ c'.toNat then trimFunc u else u

/-- `loggerWriter.Write(p)`: how the call of `logFunc` ends, the count `Write` returns, and the
world after it. -/
def loggerWriter.Write (trimFunc : List UInt8 → List UInt8) (logFunc : LogFunc E) (now : Go.Time)
    (callers : List stacktrace.Frame) (p : List UInt8) (w : World E) : Option ((Ending × Nat) × World E) := do
  let p := bytes.TrimSpace trimFunc p
  let (e, w) ← logFunc now callers p [] w
  pure ((e, p.length), w)

/-- `NewStdLogAt(l, level)`: the logging method the `log.Logger` writes to, or the error. The
caller skip it adds is left out with the skip. -/
def NewStdLogAt (quote : List UInt8 → List UInt8) (l : Logger E) (level : Level) :
    Except Err (LogFunc E) :=
  levelToFunc ops rt quote l level

/-- `(*log.Logger).Print(v)` on the logger `NewStdLogAt` returns, which has no prefix and no
flags: `Output` writes the text with a newline added unless it ends in one, in one `Write`. -/
def stdLogPrint (trimFunc : List UInt8 → List UInt8) (logFunc : LogFunc E) (now : Go.Time)
    (callers : List stacktrace.Frame) (v : List UInt8) (w : World E) : Option ((Ending × Nat) × World E) :=
  let line := if v.getLast? = some 0x0A then v else v ++ [0x0A]
  loggerWriter.Write trimFunc logFunc now callers line w

end StdLog

/-! ### `levelToFunc` -/

/-- A level from `DebugLevel` to `FatalLevel` is one of the seven. -/
theorem Level.eq_of_mem_range {l : Level} (hlo : DebugLevel ≤ l) (hhi : l ≤ FatalLevel) :
    l = DebugLevel ∨ l = InfoLevel ∨ l = WarnLevel ∨ l = ErrorLevel ∨ l = DPanicLevel ∨
      l = PanicLevel ∨ l = FatalLevel := by
  have hlo' : -1 ≤ l.toInt := Int8.le_iff_toInt_le.mp hlo
  have hhi' : l.toInt ≤ 5 := Int8.le_iff_toInt_le.mp hhi
  obtain ⟨n, hn⟩ : ∃ n : Int, l.toInt = n := ⟨_, rfl⟩
  have hl : l = Int8.ofInt n := by rw [← hn, Int8.ofInt_toInt]
  subst hl
  rw [hn] at hlo' hhi'
  interval_cases n <;> decide

section LevelToFunc

variable (ops : EncoderOps E) (rt : Runtime) (quote : List UInt8 → List UInt8)

/-- `levelToFunc` gives `Log` at the level for the seven named levels, and the error naming the
level for any other. -/
theorem levelToFunc_spec (logger : Logger E) (lvl : Level) :
    levelToFunc ops rt quote logger lvl =
      if DebugLevel ≤ lvl ∧ lvl ≤ FatalLevel then .ok fun now callers => logger.Log ops rt now callers lvl
      else .error (ascii "unrecognized level: " ++ quote lvl.string) := by
  unfold levelToFunc
  by_cases hr : DebugLevel ≤ lvl ∧ lvl ≤ FatalLevel
  · -- a level in range is one of the seven, each taking its own branch
    rw [if_pos hr]
    rcases Level.eq_of_mem_range hr.1 hr.2 with h | h | h | h | h | h | h <;> subst h <;> rfl
  · -- out of range, no comparison holds
    have hout : ∀ l : Level, DebugLevel ≤ l ∧ l ≤ FatalLevel → lvl ≠ l := fun l hl h => hr (h ▸ hl)
    rw [if_neg hr, if_neg (hout _ (by decide)), if_neg (hout _ (by decide)),
      if_neg (hout _ (by decide)), if_neg (hout _ (by decide)), if_neg (hout _ (by decide)),
      if_neg (hout _ (by decide)), if_neg (hout _ (by decide))]

end LevelToFunc

/-! ### Trimming and `Print` -/

/-- A text with the ASCII white space around it dropped. -/
def trimASCIISpace (s : List UInt8) : List UInt8 := (s.dropWhile asciiSpace).rdropWhile asciiSpace

/-- A text whose bytes are all ASCII. -/
def IsASCII (s : List UInt8) : Prop := ∀ c ∈ s, c.toNat < Utf8.RuneSelf

/-- On ASCII text `TrimSpace` never reaches `TrimFunc`: it drops the white space around. -/
theorem TrimSpace_of_ascii (trimFunc : List UInt8 → List UInt8) {s : List UInt8}
    (hs : IsASCII s) : bytes.TrimSpace trimFunc s = trimASCIISpace s := by
  unfold bytes.TrimSpace trimASCIISpace
  cases ht : (s.dropWhile asciiSpace).head? with
  | none =>
    rw [List.head?_eq_none_iff.mp ht]
    rfl
  | some c =>
    have hc : c ∈ s := (List.dropWhile_suffix asciiSpace).subset (List.mem_of_mem_head? ht)
    dsimp only
    rw [ht]
    dsimp only
    rw [if_neg (Nat.not_le.mpr (hs c hc))]
    cases hu : ((s.dropWhile asciiSpace).rdropWhile asciiSpace).getLast? with
    | none => exact (List.getLast?_eq_none_iff.mp hu).symm
    | some c' =>
      -- the last byte kept is a byte of `s`, so ASCII too
      have hc' : c' ∈ s := (List.dropWhile_suffix asciiSpace).subset
        ((List.rdropWhile_prefix _ _).subset (List.mem_of_getLast? hu))
      dsimp only
      exact if_neg (Nat.not_le.mpr (hs c' hc'))

/-- White space added at the end of a text does not change what trimming leaves. -/
theorem trimASCIISpace_append_space (s : List UInt8) {c : UInt8} (hc : asciiSpace c = true) :
    trimASCIISpace (s ++ [c]) = trimASCIISpace s := by
  unfold trimASCIISpace
  rw [List.dropWhile_append]
  split_ifs with hall
  · -- `s` is all white space, and so is what follows
    rw [List.isEmpty_iff.mp hall, List.dropWhile_cons_of_pos hc]
    rfl
  · rw [List.rdropWhile_concat_pos _ _ _ hc]

section Print

variable (ops : EncoderOps E) (rt : Runtime) (quote : List UInt8 → List UInt8)

/-- `Print` on the standard library's logger `NewStdLogAt` makes for a named level logs ASCII
text at that level, with the white space around it, and the newline `Output` adds, trimmed;
`Write` returns the length of the trimmed text. -/
theorem Print_NewStdLogAt (l : Logger E) {lvl : Level} (hlo : DebugLevel ≤ lvl)
    (hhi : lvl ≤ FatalLevel) :
    ∃ f, NewStdLogAt ops rt quote l lvl = .ok f ∧
      ∀ trimFunc now callers v w, IsASCII v →
        stdLogPrint trimFunc f now callers v w =
          (l.Log ops rt now callers lvl (trimASCIISpace v) [] w).map fun r =>
            ((r.1, (trimASCIISpace v).length), r.2) := by
  refine ⟨_, by rw [NewStdLogAt, levelToFunc_spec, if_pos ⟨hlo, hhi⟩], ?_⟩
  intro trimFunc now callers v w hv
  -- the line `Output` writes trims to the text
  have hline : ∀ line, line = v ∨ line = v ++ [0x0A] →
      bytes.TrimSpace trimFunc line = trimASCIISpace v := by
    rintro line (rfl | rfl)
    · exact TrimSpace_of_ascii trimFunc hv
    · have hascii : IsASCII (v ++ [0x0A]) := by
        intro c hc
        rcases List.mem_append.mp hc with hc | hc
        · exact hv c hc
        · rw [List.mem_singleton.mp hc]
          decide
      rw [TrimSpace_of_ascii trimFunc hascii, trimASCIISpace_append_space _ (by decide)]
  have hwrite := hline (if v.getLast? = some 0x0A then v else v ++ [0x0A])
    (by split_ifs <;> simp)
  unfold stdLogPrint loggerWriter.Write
  dsimp only
  rw [hwrite]
  cases l.Log ops rt now callers lvl (trimASCIISpace v) [] w <;> rfl

end Print

theorem Print_NewStdLogAt_info :
    DebugLevel ≤ InfoLevel ∧ InfoLevel ≤ FatalLevel ∧
      ∃ f, NewStdLogAt (jsonEncoderOps JsonEncoder.constRuntime) JsonEncoder.constRuntime id
          Logger.jsonLogger InfoLevel = .ok f ∧
        ∀ trimFunc now callers v w, IsASCII v →
          stdLogPrint trimFunc f now callers v w =
            (Logger.jsonLogger.Log (jsonEncoderOps JsonEncoder.constRuntime) JsonEncoder.constRuntime
                now callers InfoLevel (trimASCIISpace v) [] w).map fun r =>
              ((r.1, (trimASCIISpace v).length), r.2) :=
  ⟨by decide, by decide,
    Print_NewStdLogAt (jsonEncoderOps JsonEncoder.constRuntime) JsonEncoder.constRuntime id
      Logger.jsonLogger (by decide) (by decide)⟩

end Lad
