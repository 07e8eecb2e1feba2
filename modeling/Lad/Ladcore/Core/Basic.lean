import Lad.Ladcore.Field

/-!
# Cores

The library's cores form trees: `ioCore` at the leaves, and `multiCore`, `hooked`,
`levelFilterCore`, `sampler` and `lazyWithCore` above them. The state several references share
(a sampler's counters, a lazy core's `sync.Once`) and what can be seen from outside (`Event`)
live in a `World`, by id; a panic is `none`. `With` never returns a lazy core (`EagerCore`),
which makes the operations well founded.
-/

namespace Lad

open Go

/-! ### Level enablers -/

def minLevel : Level := DebugLevel

def maxLevel : Level := FatalLevel

/-- A `LevelEnabler`: its `Enabled`, and what its `Level()` method returns if it has one. -/
structure LevelEnabler where
  enabled : Level → Bool
  level : Option Level

/-- A `Level` as a `LevelEnabler`: it enables itself and every higher level, and has no
`Level()` method. -/
def Level.enabler (l : Level) : LevelEnabler := ⟨fun lvl => decide (l.Enabled lvl), none⟩

/-- The levels the loop of `LevelOf` tries, from `_minLevel` to `_maxLevel`. -/
def levelRange : List Level :=
  [DebugLevel, InfoLevel, WarnLevel, ErrorLevel, DPanicLevel, PanicLevel, FatalLevel]

/-- The loop of `LevelOf` for an enabler with no `Level()` method: the least level it enables,
or `InvalidLevel`. -/
def scanLevel (enabled : Level → Bool) : Level := (levelRange.find? enabled).getD InvalidLevel

/-- `LevelOf(enab)` for an enabler at a leaf. -/
def LevelEnabler.levelOf (e : LevelEnabler) : Level := e.level.getD (scanLevel e.enabled)

/-! ### Sampler counters -/

/-- `fnv32a`: the 32-bit FNV-1a hash. -/
def fnv32a (s : List UInt8) : UInt32 :=
  s.foldl (fun hash c => (hash ^^^ c.toUInt32) * 16777619) 2166136261

/-- `counters.get(lvl, key)`: the row of the level and the slot of the key's hash. -/
def counterSlot (lvl : Level) (key : List UInt8) : Nat × Nat :=
  ((lvl - minLevel).toInt.toNat, (fnv32a key % 4096).toNat)

/-- A `counter`: when its window ends, in Unix nanoseconds, and the calls in the window. -/
structure Counter where
  resetAt : Int
  counter : UInt64

/-- `counter.IncCheckReset(t, tick)`: the call's number in the current window, opening a new
window at `t` if the last one has ended. Runs are sequential, so the `CompareAndSwap` that a
racing goroutine could make fail succeeds. The window's end `tn + tick` is an `int64` sum. -/
def Counter.incCheckReset (c : Counter) (t : Time) (tick : Int) : UInt64 × Counter :=
  let tn := t.unixNano
  let resetAfter := c.resetAt
  if resetAfter > tn then (c.counter + 1, { c with counter := c.counter + 1 })
  else (1, { resetAt := wrap64 (tn + tick), counter := 1 })

inductive SamplingDecision where
  | LogDropped
  | LogSampled
  deriving DecidableEq, Repr

/-! ### The cores -/

/-- The methods of an `Encoder` that the cores call: `Clone`, `addFields` (each field's
`AddTo`) and `EncodeEntry`, `none` where they panic. -/
structure EncoderOps (E : Type) where
  clone : E → E
  addFields : List Field → E → Option E
  encodeEntry : E → Entry → List Field → Option (List UInt8)

/-- The cores of the library. An `ioCore` writes to the output `out`; hooks are named by
ids; a sampler's counters and a lazy core's `sync.Once` are shared by id through the
`World`. A sampler's hook is `none` for `nopSamplingHook`. -/
inductive Core (E : Type) where
  | nop
  | io (enab : LevelEnabler) (enc : E) (out : Nat)
  | tee (cores : List (Core E))
  | hooked (core : Core E) (funcs : List Nat)
  | levelFilter (core : Core E) (level : LevelEnabler)
  | sampler (core : Core E) (counts : Nat) (tick : Int) (first thereafter : UInt64)
      (hook : Option Nat)
  | lazyWith (core : Core E) (fields : List Field) (id : Nat)

namespace Core

variable {E : Type}

mutual

/-- The lazy cores in a core. -/
def lazyCount : Core E → Nat
  | .nop => 0
  | .io .. => 0
  | .tee cs => lazyCountList cs
  | .hooked c _ => lazyCount c
  | .levelFilter c _ => lazyCount c
  | .sampler c .. => lazyCount c
  | .lazyWith c _ _ => lazyCount c + 1

/-- The lazy cores in a list of cores. -/
def lazyCountList : List (Core E) → Nat
  | [] => 0
  | c :: cs => lazyCount c + lazyCountList cs

end

end Core

/-- A core with no lazy core in it, as `With` returns one. -/
structure EagerCore (E : Type) where
  core : Core E
  eager : core.lazyCount = 0

attribute [simp] EagerCore.eager

/-- `CheckedEntry`: the entry and the cores that agreed to log it. -/
structure CheckedEntry (E : Type) where
  entry : Entry
  cores : List (Core E)

/-- `ce.AddCore(ent, core)`, safe on a nil `ce`: a nil entry becomes one for `ent`. -/
def CheckedEntry.addCore {E : Type} (ce : Option (CheckedEntry E)) (ent : Entry) (core : Core E) :
    CheckedEntry E :=
  match ce with
  | none => ⟨ent, [core]⟩
  | some ce => { ce with cores := ce.cores ++ [core] }

/-- What the cores do that can be seen from outside. -/
inductive Event where
  /-- `Write` on the output `out`. -/
  | write (out : Nat) (bs : List UInt8)
  /-- `Sync` on the output `out`. -/
  | sync (out : Nat)
  /-- A hook of `RegisterHooks` called with the entry. -/
  | hook (id : Nat) (ent : Entry)
  /-- A `SamplerHook` called with the entry and the decision. -/
  | sampled (id : Nat) (ent : Entry) (dec : SamplingDecision)
  deriving DecidableEq

/-- The `sync.Once` of a lazy core: not run yet, or run, with the core it built. -/
inductive LazyState (E : Type) where
  | pending
  | done (core : EagerCore E)

/-- The state the cores share, what they did, and what the program's outputs and hooks return:
`Write` of some bytes on an output, and a hook of `RegisterHooks` on an entry, give `none` or the
error they fail with. -/
structure World (E : Type) where
  lazies : Nat → LazyState E
  counters : Nat → Nat × Nat → Counter
  nextId : Nat
  events : List Event
  writeErr : Nat → List UInt8 → Option Err
  hookErr : Nat → Entry → Option Err

namespace World

variable {E : Type}

/-- No lazy core run, every counter zero, nothing done, and no output or hook failing. -/
def empty : World E := ⟨fun _ => .pending, fun _ _ => ⟨0, 0⟩, 0, [], fun _ _ => none, fun _ _ => none⟩

def emit (w : World E) (e : Event) : World E := { w with events := w.events ++ [e] }

def setLazy (w : World E) (id : Nat) (s : LazyState E) : World E :=
  { w with lazies := fun i => if i = id then s else w.lazies i }

def setCounter (w : World E) (counts : Nat) (slot : Nat × Nat) (c : Counter) : World E :=
  { w with counters := fun t s => if t = counts ∧ s = slot then c else w.counters t s }

/-- The sampler's hook called, unless it is `nopSamplingHook`. -/
def sampled (w : World E) (hook : Option Nat) (ent : Entry) (dec : SamplingDecision) :
    World E :=
  match hook with
  | some id => w.emit (.sampled id ent dec)
  | none => w

end World

namespace Core

variable {E : Type}

/-! ### `Enabled` -/

mutual

/-- `Enabled(lvl)`. The wrappers that embed a core take its `Enabled`; a lazy core's is the
one of its current core. -/
def enabled (w : World E) : Core E → Level → Bool
  | .nop, _ => false
  | .io enab _ _, lvl => enab.enabled lvl
  | .tee cs, lvl => enabledList w cs lvl
  | .hooked c _, lvl => enabled w c lvl
  | .levelFilter _ level, lvl => level.enabled lvl
  | .sampler c .., lvl => enabled w c lvl
  | .lazyWith c _ id, lvl =>
    match w.lazies id with
    | .pending => enabled w c lvl
    | .done c' => enabled w c'.core lvl
termination_by c => (c.lazyCount, sizeOf c)
decreasing_by
  all_goals (apply Prod.lex_def.2; simp [lazyCount]; try omega)

/-- `multiCore.Enabled`: some core of the list is enabled. -/
def enabledList (w : World E) : List (Core E) → Level → Bool
  | [], _ => false
  | c :: cs, lvl => enabled w c lvl || enabledList w cs lvl
termination_by cs => (lazyCountList cs, sizeOf cs)
decreasing_by
  all_goals (apply Prod.lex_def.2; simp [lazyCountList]; try omega)

end

/-! ### `With` -/

section With

variable (ops : EncoderOps E)

theorem lazyCountList_map_core (cs : List (EagerCore E)) :
    lazyCountList (cs.map EagerCore.core) = 0 := by
  induction cs with
  | nil => rfl
  | cons c cs ih => simp [lazyCountList, ih]

mutual

/-- `With(fields)`. An `ioCore` clones its encoder and adds the fields to the clone; the
wrappers wrap the core's `With`; a sampler's child shares its counters; a lazy core runs its
`sync.Once` and returns its built core's `With`. -/
def «with» : Core E → List Field → World E → Option (EagerCore E × World E)
  | .nop, _, w => some (⟨.nop, rfl⟩, w)
  | .io enab enc out, fields, w =>
    (ops.addFields fields (ops.clone enc)).map fun enc => (⟨.io enab enc out, rfl⟩, w)
  | .tee cs, fields, w => do
    let (cs, w) ← withList cs fields w
    pure (⟨.tee (cs.map EagerCore.core), by simp [lazyCount, lazyCountList_map_core]⟩, w)
  | .hooked c funcs, fields, w => do
    let (c, w) ← «with» c fields w
    pure (⟨.hooked c.core funcs, by simp [lazyCount]⟩, w)
  | .levelFilter c level, fields, w => do
    let (c, w) ← «with» c fields w
    pure (⟨.levelFilter c.core level, by simp [lazyCount]⟩, w)
  | .sampler c counts tick first thereafter hook, fields, w => do
    let (c, w) ← «with» c fields w
    pure (⟨.sampler c.core counts tick first thereafter hook, by simp [lazyCount]⟩, w)
  | .lazyWith c lazyFields id, fields, w => do
    let (c, w) ← initOnce c lazyFields id w
    «with» c.core fields w
termination_by c => (c.lazyCount, sizeOf c)
decreasing_by
  all_goals (apply Prod.lex_def.2; simp [lazyCount]; try omega)

/-- `With` on each core of a `multiCore`, in order. -/
def withList : List (Core E) → List Field → World E → Option (List (EagerCore E) × World E)
  | [], _, w => some ([], w)
  | c :: cs, fields, w => do
    let (c, w) ← «with» c fields w
    let (cs, w) ← withList cs fields w
    pure (c :: cs, w)
termination_by cs => (lazyCountList cs, sizeOf cs)
decreasing_by
  all_goals (apply Prod.lex_def.2; simp [lazyCountList]; try omega)

/-- `lazyWithCore.initOnce`: the first time, the core becomes its `With(fields)`. -/
def initOnce (c : Core E) (fields : List Field) (id : Nat) (w : World E) :
    Option (EagerCore E × World E) :=
  match w.lazies id with
  | .pending => do
    let (c, w) ← «with» c fields w
    pure (c, w.setLazy id (.done c))
  | .done c => some (c, w)
termination_by (c.lazyCount + 1, sizeOf c)
decreasing_by
  exact Prod.Lex.left _ _ (by omega)

end

end With

/-! ### `Check` -/

section Check

variable (ops : EncoderOps E)

mutual

/-- `Check(ent, ce)`. A leaf that is enabled adds itself; a `hooked` core adds itself after
its core if what its core returned is not nil; a sampler counts the entry and forwards it or
drops it, calling its hook either way. -/
def check : Core E → Entry → Option (CheckedEntry E) → World E →
    Option (Option (CheckedEntry E) × World E)
  | .nop, _, ce, w => some (ce, w)
  | .io enab enc out, ent, ce, w =>
    if enab.enabled ent.level then some (some (CheckedEntry.addCore ce ent (.io enab enc out)), w)
    else some (ce, w)
  | .tee cs, ent, ce, w => checkList cs ent ce w
  | .hooked c funcs, ent, ce, w => do
    let (downstream, w) ← check c ent ce w
    match downstream with
    | some downstream => pure (some (CheckedEntry.addCore (some downstream) ent (.hooked c funcs)), w)
    | none => pure (ce, w)
  | .levelFilter c level, ent, ce, w =>
    if !level.enabled ent.level then some (ce, w) else check c ent ce w
  | .sampler c counts tick first thereafter hook, ent, ce, w =>
    if !enabled w c ent.level then some (ce, w)
    else if minLevel ≤ ent.level ∧ ent.level ≤ maxLevel then
      let slot := counterSlot ent.level ent.message
      let (n, counter) := (w.counters counts slot).incCheckReset ent.time tick
      let w := w.setCounter counts slot counter
      if n > first ∧ (thereafter = 0 ∨ (n - first) % thereafter ≠ 0) then
        some (ce, w.sampled hook ent .LogDropped)
      else check c ent ce (w.sampled hook ent .LogSampled)
    else check c ent ce w
  | .lazyWith c fields id, ent, ce, w => do
    let (c, w) ← initOnce ops c fields id w
    check c.core ent ce w
termination_by c => (c.lazyCount, sizeOf c)
decreasing_by
  all_goals (apply Prod.lex_def.2; simp [lazyCount]; try omega)

/-- `multiCore.Check`: each core in order, on what the one before returned. -/
def checkList : List (Core E) → Entry → Option (CheckedEntry E) → World E →
    Option (Option (CheckedEntry E) × World E)
  | [], _, ce, w => some (ce, w)
  | c :: cs, ent, ce, w => do
    let (ce, w) ← check c ent ce w
    checkList cs ent ce w
termination_by cs => (lazyCountList cs, sizeOf cs)
decreasing_by
  all_goals (apply Prod.lex_def.2; simp [lazyCountList]; try omega)

end

end Check

/-! ### `Write` and `Sync` -/

section Write

variable (ops : EncoderOps E)

mutual

/-- `Write(ent, fields)`, with the errors it returns, in order (`multierr.Append` of them; none
is a nil error). An `ioCore` encodes the entry and writes it; if the write fails it returns the
error, and otherwise syncs its output above `ErrorLevel`. A `hooked` core runs its hooks only,
its core having added itself to the `CheckedEntry`; the other wrappers write through the core
they embed, a lazy core through its current core. -/
def write : Core E → Entry → List Field → World E → Option (List Err × World E)
  | .nop, _, _, w => some ([], w)
  | .io _ enc out, ent, fields, w => do
    let bs ← ops.encodeEntry enc ent fields
    match w.writeErr out bs with
    | some err => some ([err], w.emit (.write out bs))
    | none =>
      let w := w.emit (.write out bs)
      -- since we may be crashing the program, sync the output
      if ent.level > ErrorLevel then some ([], w.emit (.sync out)) else some ([], w)
  | .tee cs, ent, fields, w => writeList cs ent fields w
  | .hooked _ funcs, ent, _, w =>
    some (funcs.filterMap (w.hookErr · ent), funcs.foldl (fun w f => w.emit (.hook f ent)) w)
  | .levelFilter c _, ent, fields, w => write c ent fields w
  | .sampler c .., ent, fields, w => write c ent fields w
  | .lazyWith c _ id, ent, fields, w =>
    match w.lazies id with
    | .pending => write c ent fields w
    | .done c' => write c'.core ent fields w
termination_by c => (c.lazyCount, sizeOf c)
decreasing_by
  all_goals (apply Prod.lex_def.2; simp [lazyCount]; try omega)

/-- `multiCore.Write`: each core in order, the errors appended. -/
def writeList : List (Core E) → Entry → List Field → World E → Option (List Err × World E)
  | [], _, _, w => some ([], w)
  | c :: cs, ent, fields, w => do
    let (errs, w) ← write c ent fields w
    let (errs', w) ← writeList cs ent fields w
    pure (errs ++ errs', w)
termination_by cs => (lazyCountList cs, sizeOf cs)
decreasing_by
  all_goals (apply Prod.lex_def.2; simp [lazyCountList]; try omega)

end

end Write

mutual

/-- `Sync()`: the outputs below, in order. -/
def sync : Core E → World E → World E
  | .nop, w => w
  | .io _ _ out, w => w.emit (.sync out)
  | .tee cs, w => syncList cs w
  | .hooked c _, w => sync c w
  | .levelFilter c _, w => sync c w
  | .sampler c .., w => sync c w
  | .lazyWith c _ id, w =>
    match w.lazies id with
    | .pending => sync c w
    | .done c' => sync c'.core w
termination_by c => (c.lazyCount, sizeOf c)
decreasing_by
  all_goals (apply Prod.lex_def.2; simp [lazyCount]; try omega)

/-- `multiCore.Sync`. -/
def syncList : List (Core E) → World E → World E
  | [], w => w
  | c :: cs, w => syncList cs (sync c w)
termination_by cs => (lazyCountList cs, sizeOf cs)
decreasing_by
  all_goals (apply Prod.lex_def.2; simp [lazyCountList]; try omega)

end

/-! ### `LevelOf` -/

mutual

/-- `LevelOf(c)`. The cores with a `Level()` method report through it: `ioCore` and
`levelFilterCore` the level of their enabler, `hooked` and `sampler` the one of their core,
`multiCore` the least of its cores' levels, starting from `_maxLevel`. `nopCore` and
`lazyWithCore` have none, so `LevelOf` scans their `Enabled`. -/
def levelOf (w : World E) : Core E → Level
  | .nop => scanLevel (enabled w .nop)
  | .io enab _ _ => enab.levelOf
  | .tee cs => levelOfList w cs maxLevel
  | .hooked c _ => levelOf w c
  | .levelFilter _ level => level.levelOf
  | .sampler c .. => levelOf w c
  | .lazyWith c fields id => scanLevel (enabled w (.lazyWith c fields id))

/-- The loop of `multiCore.Level`, from the least level so far. -/
def levelOfList (w : World E) : List (Core E) → Level → Level
  | [], minLvl => minLvl
  | c :: cs, minLvl =>
    let lvl := levelOf w c
    levelOfList w cs (if lvl < minLvl then lvl else minLvl)

end

end Core

/-- The loop of `CheckedEntry.Write(fields)`: the entry written to every core that added itself,
in order, the errors appended as `multiCore.Write` appends them; nothing for a nil entry. -/
def CheckedEntry.write {E : Type} (ops : EncoderOps E) (ce : Option (CheckedEntry E))
    (fields : List Field) (w : World E) : Option (List Err × World E) :=
  match ce with
  | none => some ([], w)
  | some ce => Core.writeList ops ce.cores ce.entry fields w

/-! ### Building cores -/

section Build

variable {E : Type}

def NewNopCore : Core E := .nop

def NewCore (enc : E) (ws : Nat) (enab : LevelEnabler) : Core E := .io enab enc ws

/-- `NewTee(cores...)`: no core is a no-op core, one core is itself. -/
def NewTee : List (Core E) → Core E
  | [] => NewNopCore
  | [c] => c
  | cs => .tee cs

def RegisterHooks (core : Core E) (hooks : List Nat) : Core E := .hooked core hooks

/-- The error of `NewIncreaseLevelCore` at a level the new enabler allows and the core does
not. -/
def increaseLevelErr (l : Level) : Err :=
  ascii "invalid increase level, as level \"" ++ l.string ++
    ascii "\" is allowed by increased level, but not by existing core"

/-- `NewIncreaseLevelCore(core, level)`: an error at the highest level that `level` enables
and `core` does not. -/
def NewIncreaseLevelCore (w : World E) (core : Core E) (level : LevelEnabler) :
    Except Err (Core E) :=
  match levelRange.reverse.find? (fun l => !core.enabled w l && level.enabled l) with
  | some l => .error (increaseLevelErr l)
  | none => .ok (.levelFilter core level)

/-- `NewSamplerWithOptions(core, tick, first, thereafter, opts...)`, with the hooks of the
`SamplerHook` options, the last of which is kept; the counters are new. -/
def NewSamplerWithOptions (core : Core E) (tick first thereafter : Int) (hooks : List Nat)
    (w : World E) : Core E × World E :=
  (.sampler core w.nextId tick (UInt64.ofInt first) (UInt64.ofInt thereafter) hooks.getLast?,
    { w with nextId := w.nextId + 1 })

/-- `NewLazyWith(core, fields)`, with a new `sync.Once`. -/
def NewLazyWith (core : Core E) (fields : List Field) (w : World E) : Core E × World E :=
  (.lazyWith core fields w.nextId, { w with nextId := w.nextId + 1 })

end Build

end Lad
