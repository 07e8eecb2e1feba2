import Mathlib.Data.List.Basic

/-!
# Stack traces

`Capture` has `runtime.Callers`, taken by its contract (`runtimeCallers`), fill a pooled buffer,
and a full capture doubles the buffer while the count fills it. The loop ends because a pooled
storage is never empty, an invariant of every run of captures and frees (`run_inv`); a capture
then returns the frames its depth promises (`Capture_spec`).
-/

namespace Lad

namespace stacktrace

/-- A program counter. -/
abbrev PC := Nat

/-- `runtime.Callers(skip, pcs)` on a call stack whose frames past `skip` are `frames`: the count
it writes, and `pcs` after the writes. -/
def runtimeCallers (frames pcs : List PC) : Nat × List PC :=
  (min frames.length pcs.length, frames.take pcs.length ++ pcs.drop frames.length)

/-- `Stack`: the captured `pcs` and the pooled `storage`. Its `frames` iterator is built from
`pcs`, and left out. -/
structure Stack where
  pcs : List PC
  storage : List PC
  deriving DecidableEq, Repr

/-- The `New` function of `_stackPool`: a stack with a storage of 64 entries. -/
def newStack : Stack := ⟨[], List.replicate 64 0⟩

inductive Depth
  | First
  | Full
  deriving DecidableEq, Repr

def Stack.Count (st : Stack) : Nat := st.pcs.length

/-- `_stackPool.Get()`: a pooled stack, or a new one when the pool is empty. -/
def poolGet : List Stack → Stack × List Stack
  | [] => (newStack, [])
  | st :: pool => (st, pool)

/-- The loop of a full capture: while the count fills `pcs`, a buffer twice as long. `none` when
`fuel` doublings do not end it. -/
def captureLoop (frames : List PC) (fuel : Nat) (pcs : List PC) (numFrames : Nat) :
    Option (List PC × Nat) :=
  if numFrames = pcs.length then
    match fuel with
    | 0 => none
    | fuel + 1 =>
      let r := runtimeCallers frames (List.replicate (pcs.length * 2) 0)
      captureLoop frames fuel r.2 r.1
  else some (pcs, numFrames)

/-- `Capture(skip, depth)` on the call stack `frames` past `skip`: the stack and the pool after
the `Get`. `none` where Go panics, on a first-frame capture from an empty storage, or where the
loop has not ended within `fuel` doublings. -/
def Capture (frames : List PC) (depth : Depth) (fuel : Nat) (pool : List Stack) :
    Option (Stack × List Stack) :=
  let (stack, pool) := poolGet pool
  match depth with
  | .First =>
    if stack.storage = [] then none
    else
      -- `pcs` is the front of `storage`, so the write lands in `storage` too
      let r := runtimeCallers frames (stack.storage.take 1)
      some (⟨r.2.take r.1, r.2 ++ stack.storage.drop 1⟩, pool)
  | .Full =>
    let r := runtimeCallers frames stack.storage
    match captureLoop frames fuel r.2 r.1 with
    | none => none
    | some (pcs, numFrames) => some (⟨pcs.take numFrames, pcs⟩, pool)

/-- `Free()`: the stack goes back to the pool with its storage. -/
def Stack.Free (st : Stack) (pool : List Stack) : List Stack := { st with pcs := [] } :: pool

/-- The frames a capture of each depth promises, on a call stack of `D` frames. -/
def Depth.count : Depth → Nat → Nat
  | .First, d => min d 1
  | .Full, d => d

/-! ### `runtime.Callers` -/

section Callers

variable (frames pcs : List PC)

@[simp] theorem runtimeCallers_fst : (runtimeCallers frames pcs).1 = min frames.length pcs.length :=
  rfl

@[simp] theorem runtimeCallers_length : (runtimeCallers frames pcs).2.length = pcs.length := by
  simp only [runtimeCallers, List.length_append, List.length_take, List.length_drop]
  omega

/-- What was written is the front of the call stack. -/
theorem runtimeCallers_take :
    (runtimeCallers frames pcs).2.take (runtimeCallers frames pcs).1 = frames.take pcs.length := by
  have hlen : (frames.take pcs.length).length = min frames.length pcs.length := by
    simp [Nat.min_comm]
  simp only [runtimeCallers]
  rw [← hlen, List.take_left]

end Callers

/-! ### The doubling loop -/

/-- A buffer longer than the call stack ends the loop, holding the whole call stack. -/
theorem captureLoop_exit (frames : List PC) (fuel : Nat) {pcs : List PC}
    (hlt : frames.length < pcs.length)
    (hfront : pcs.take (min frames.length pcs.length) = frames.take pcs.length) :
    captureLoop frames fuel pcs (min frames.length pcs.length) = some (pcs, frames.length) ∧
      pcs.take frames.length = frames := by
  have hmin : min frames.length pcs.length = frames.length := Nat.min_eq_left (Nat.le_of_lt hlt)
  constructor
  · unfold captureLoop
    rw [if_neg (by omega), hmin]
  · rw [← hmin, hfront, List.take_of_length_le (Nat.le_of_lt hlt)]

/-- From a buffer that is not empty, holding the front of the call stack, enough fuel ends the
loop with the whole call stack at the front of a buffer at least as long. The fuel and the
length of the buffer never add up to less: each round spends one and at least doubles the other. -/
theorem captureLoop_spec (frames : List PC) (fuel : Nat) (pcs : List PC)
    (hpos : 0 < pcs.length) (hfuel : frames.length < fuel + pcs.length)
    (hfront : pcs.take (min frames.length pcs.length) = frames.take pcs.length) :
    ∃ pcs', captureLoop frames fuel pcs (min frames.length pcs.length) = some (pcs', frames.length) ∧
      pcs'.take frames.length = frames ∧ pcs.length ≤ pcs'.length := by
  induction fuel generalizing pcs with
  | zero =>
    have hlt : frames.length < pcs.length := by simpa using hfuel
    obtain ⟨hloop, htake⟩ := captureLoop_exit frames 0 hlt hfront
    exact ⟨pcs, hloop, htake, Nat.le_refl _⟩
  | succ fuel ih =>
    by_cases hfull : min frames.length pcs.length = pcs.length
    · have hbuf : (runtimeCallers frames (List.replicate (pcs.length * 2) 0)).2.length =
          pcs.length * 2 := by
        rw [runtimeCallers_length, List.length_replicate]
      have hfront' := runtimeCallers_take frames (List.replicate (pcs.length * 2) 0)
      rw [runtimeCallers_fst, ← runtimeCallers_length frames (List.replicate (pcs.length * 2) 0)]
        at hfront'
      obtain ⟨pcs', hloop, htake, hle⟩ := ih _ (by omega) (by omega) hfront'
      refine ⟨pcs', ?_, htake, by omega⟩
      unfold captureLoop
      rw [if_pos hfull]
      simpa using hloop
    · have hlt : frames.length < pcs.length := by omega
      obtain ⟨hloop, htake⟩ := captureLoop_exit frames (fuel + 1) hlt hfront
      exact ⟨pcs, hloop, htake, Nat.le_refl _⟩

/-- On an empty buffer the count always fills it, and the loop never ends. -/
theorem captureLoop_nil (frames : List PC) (fuel : Nat) : captureLoop frames fuel [] 0 = none := by
  induction fuel with
  | zero => simp [captureLoop]
  | succ fuel ih =>
    rw [captureLoop]
    simpa [runtimeCallers] using ih

/-! ### `Capture` -/

/-- A first-frame capture from a storage that is not empty reads `min(D, 1)` frames into its
front, and keeps its length. -/
theorem Capture_first {frames : List PC} {stack : Stack} {rest : List Stack} (fuel : Nat)
    {pool : List Stack} (hget : poolGet pool = (stack, rest)) (hne : stack.storage ≠ []) :
    ∃ st, Capture frames .First fuel pool = some (st, rest) ∧
      st.Count = min frames.length 1 ∧ st.pcs = frames.take st.Count ∧ st.storage ≠ [] := by
  have hone : (stack.storage.take 1).length = 1 := by
    have := List.length_pos_iff.2 hne
    simp only [List.length_take]
    omega
  refine ⟨⟨(runtimeCallers frames (stack.storage.take 1)).2.take
      (runtimeCallers frames (stack.storage.take 1)).1,
    (runtimeCallers frames (stack.storage.take 1)).2 ++ stack.storage.drop 1⟩,
    by simp only [Capture, hget, if_neg hne], ?_, ?_, ?_⟩
  · simp only [Stack.Count, List.length_take, runtimeCallers_length, runtimeCallers_fst, hone]
    omega
  · simp only [Stack.Count]
    rw [runtimeCallers_take, hone]
    simp
  · intro h
    have hlen := congrArg List.length h
    simp only [List.length_append, runtimeCallers_length, hone, List.length_nil] at hlen
    omega

/-- A full capture from a storage that is not empty, with more fuel than frames, reads the whole
call stack, into a storage at least as long. -/
theorem Capture_full {frames : List PC} {stack : Stack} {rest : List Stack} {fuel : Nat}
    {pool : List Stack} (hget : poolGet pool = (stack, rest)) (hne : stack.storage ≠ [])
    (hfuel : frames.length < fuel) :
    ∃ st, Capture frames .Full fuel pool = some (st, rest) ∧
      st.Count = frames.length ∧ st.pcs = frames.take st.Count ∧ st.storage ≠ [] := by
  have hpos : 0 < stack.storage.length := List.length_pos_iff.2 hne
  have hfront := runtimeCallers_take frames stack.storage
  rw [runtimeCallers_fst, ← runtimeCallers_length frames stack.storage] at hfront
  obtain ⟨pcs', hloop, htake, hle⟩ := captureLoop_spec frames fuel (runtimeCallers frames stack.storage).2
    (by simpa using hpos) (by simp; omega) hfront
  rw [runtimeCallers_length] at hloop hle
  have hcount : (pcs'.take frames.length).length = frames.length := by rw [htake]
  refine ⟨⟨pcs'.take frames.length, pcs'⟩, ?_, hcount, ?_, ?_⟩
  · simp only [Capture, hget, runtimeCallers_fst, hloop]
  · simp only [Stack.Count, htake, List.take_length]
  · intro h
    have hnil : pcs' = [] := h
    rw [hnil, List.length_nil] at hle
    omega

/-- From a pool whose stacks all have storage, a capture with more fuel than frames returns the
frames its depth promises, at the front of a storage that is not empty. -/
theorem Capture_spec (frames : List PC) (depth : Depth) {fuel : Nat} {pool : List Stack}
    (hpool : ∀ st ∈ pool, st.storage ≠ []) (hfuel : frames.length < fuel) :
    ∃ st, Capture frames depth fuel pool = some (st, pool.tail) ∧
      st.Count = depth.count frames.length ∧ st.pcs = frames.take st.Count ∧ st.storage ≠ [] := by
  have hget : poolGet pool = ((poolGet pool).1, pool.tail) ∧ (poolGet pool).1.storage ≠ [] := by
    cases pool with
    | nil => exact ⟨rfl, by decide⟩
    | cons st pool => exact ⟨rfl, hpool st (List.mem_cons_self ..)⟩
  cases depth with
  | First => exact Capture_first fuel hget.1 hget.2
  | Full => exact Capture_full hget.1 hget.2 hfuel

/-! ### The pool over a run -/

/-- The pool, and the stacks the callers hold. -/
structure World where
  pool : List Stack
  held : List Stack

/-- What callers do: capture a stack trace of a call stack, with the fuel its loop may use, or
free the `i`-th stack they hold. -/
inductive Op
  | capture (frames : List PC) (depth : Depth) (fuel : Nat)
  | free (i : Nat)

/-- One call; `none` where the capture panics or does not end. -/
def step (w : World) : Op → Option World
  | .capture frames depth fuel =>
    (Capture frames depth fuel w.pool).map fun r => ⟨r.2, r.1 :: w.held⟩
  | .free i =>
    match w.held[i]? with
    | none => some w
    | some st => some ⟨st.Free w.pool, w.held.eraseIdx i⟩

/-- The calls in turn. -/
def run (w : World) : List Op → Option World
  | [] => some w
  | op :: ops => (step w op).bind fun w => run w ops

/-- Every stack, pooled or held, has storage. -/
def Inv (w : World) : Prop := ∀ st ∈ w.pool ++ w.held, st.storage ≠ []

/-- A capture with more fuel than frames. -/
def Op.Fueled : Op → Prop
  | .capture frames _ fuel => frames.length < fuel
  | .free _ => True

/-- A fuelled call ends, and every stack keeps storage. -/
theorem step_inv {w : World} (hw : Inv w) {op : Op} (hop : op.Fueled) :
    ∃ w', step w op = some w' ∧ Inv w' := by
  cases op with
  | capture frames depth fuel =>
    have hpool : ∀ st ∈ w.pool, st.storage ≠ [] := fun st h => hw st (List.mem_append_left _ h)
    obtain ⟨st, hcap, -, -, hne⟩ := Capture_spec frames depth hpool hop
    refine ⟨⟨w.pool.tail, st :: w.held⟩, by simp [step, hcap], ?_⟩
    intro s hs
    rcases List.mem_append.1 hs with hs | hs
    · exact hpool s (List.mem_of_mem_tail hs)
    · rcases List.mem_cons.1 hs with rfl | hs
      · exact hne
      · exact hw s (List.mem_append_right _ hs)
  | free i =>
    rcases hi : w.held[i]? with _ | st
    · exact ⟨w, by simp [step, hi], hw⟩
    · have hst : st ∈ w.held := List.mem_of_getElem? hi
      refine ⟨⟨st.Free w.pool, w.held.eraseIdx i⟩, by simp [step, hi], ?_⟩
      intro s hs
      rcases List.mem_append.1 hs with hs | hs
      · rcases List.mem_cons.1 hs with rfl | hs
        · exact hw st (List.mem_append_right _ hst)
        · exact hw s (List.mem_append_left _ hs)
      · exact hw s (List.mem_append_right _ (List.mem_of_mem_eraseIdx hs))

/-- Over fuelled calls, the run ends, and every stack keeps storage. -/
theorem run_inv (ops : List Op) (hops : ∀ op ∈ ops, op.Fueled) :
    ∀ w, Inv w → ∃ w', run w ops = some w' ∧ Inv w' := by
  induction ops with
  | nil => intro w hw; exact ⟨w, rfl, hw⟩
  | cons op ops ih =>
    intro w hw
    obtain ⟨w₁, hstep, hw₁⟩ := step_inv hw (hops op (List.mem_cons_self ..))
    obtain ⟨w₂, hrun, hw₂⟩ := ih (fun op h => hops op (List.mem_cons_of_mem _ h)) w₁ hw₁
    exact ⟨w₂, by simp [run, hstep, hrun], hw₂⟩

/-- After any run of fuelled captures and frees from an empty pool, every pooled stack has
storage, and a capture with more fuel than frames returns what its depth promises: the whole
call stack for a full capture, also when it is exactly as deep as the storage is long, and
`min(D, 1)` frames for a first-frame capture. -/
theorem Capture_after_run (ops : List Op) (hops : ∀ op ∈ ops, op.Fueled) (frames : List PC)
    (depth : Depth) (fuel : Nat) (hfuel : frames.length < fuel) :
    ∃ w, run ⟨[], []⟩ ops = some w ∧ (∀ st ∈ w.pool, st.storage ≠ []) ∧
      ∃ st, Capture frames depth fuel w.pool = some (st, w.pool.tail) ∧
        st.Count = depth.count frames.length ∧ st.pcs = frames.take st.Count := by
  obtain ⟨w, hrun, hw⟩ := run_inv ops hops ⟨[], []⟩ (by simp [Inv])
  have hpool : ∀ st ∈ w.pool, st.storage ≠ [] := fun st h => hw st (List.mem_append_left _ h)
  obtain ⟨st, hcap, hcount, hpcs, -⟩ := Capture_spec frames depth hpool hfuel
  exact ⟨w, hrun, hpool, st, hcap, hcount, hpcs⟩

theorem Capture_after_run_exact :
    ∃ w, run ⟨[], []⟩ [.capture (List.replicate 64 7) .Full 65, .free 0] = some w ∧
      (∀ st ∈ w.pool, st.storage ≠ []) ∧
      ∃ st, Capture (List.replicate 64 7) .Full 65 w.pool = some (st, w.pool.tail) ∧
        st.Count = Depth.Full.count (List.replicate 64 7).length ∧
        st.pcs = (List.replicate 64 7).take st.Count :=
  Capture_after_run _ (by simp [Op.Fueled]) _ .Full 65 (by simp)

end stacktrace

end Lad
