import Lad.Lib.Bufio
import Lad.Ladcore.WriteSyncer

/-!
# `BufferedWriteSyncer`

Writes go through a `bufio.Writer`, flushed when full, on `Sync`, on each tick and on `Stop`; a
run is a sequence of `Write`, `Sync` and ticks (`Op`). Over a syncer that takes every byte, no
write is split: each call receives whole consecutive writes (`Inv`), and after a final `Sync`
the calls hold every write, in order (`run_sync_calls`).
-/

namespace Lad

open Go

variable {σ : Type}

/-- The contract of `io.Writer`, for a `WriteSyncer`. -/
def WriteSyncer.Contract (ws : WriteSyncer σ) : Prop :=
  ∀ p s, ((ws.Write p).run s).1.1 ≤ p.length ∧
    (((ws.Write p).run s).1.1 < p.length → ((ws.Write p).run s).1.2 ≠ none)

/-- `WS.Write`, as the `io.Writer` that `bufio` writes to, with each call's argument recorded
after the state of `WS`. -/
def WriteSyncer.recorded (ws : WriteSyncer σ) (h : ws.Contract) :
    IoWriter (σ × List (List UInt8)) where
  Write p st := (((ws.Write p).run st.1).1, (((ws.Write p).run st.1).2, st.2 ++ [p]))
  write_le p st := (h p st.1).1
  write_short p st := (h p st.1).2

/-- A syncer that takes every byte it is given, with no error. -/
def WriteSyncer.Accepts (ws : WriteSyncer σ) : Prop :=
  ∀ p s, ((ws.Write p).run s).1 = (p.length, none)

theorem WriteSyncer.Accepts.contract {ws : WriteSyncer σ} (h : ws.Accepts) : ws.Contract :=
  fun p s => by simp [h p s]

theorem WriteSyncer.Accepts.recorded {ws : WriteSyncer σ} (h : ws.Accepts) (hc : ws.Contract) :
    (ws.recorded hc).Accepts :=
  fun p st => h p st.1

/-- `_defaultBufferSize`, 256 kB. -/
def defaultBufferSize : Int := 256 * 1024

/-- `BufferedWriteSyncer`, with the fields a run reads. `writer` is `nil` until `initialize` has
run, so `initialized` is `writer ≠ nil`. The flush interval and the clock only time the ticks,
which a run takes as given. -/
structure BufferedWriteSyncer (σ : Type) where
  WS : WriteSyncer σ
  /-- `WS` keeps the contract of `io.Writer`. -/
  contract : WS.Contract
  Size : Int
  stopped : Bool
  writer : Option bufio.Writer

namespace BufferedWriteSyncer

/-- The `io.Writer` under the buffer. -/
def wr (s : BufferedWriteSyncer σ) : IoWriter (σ × List (List UInt8)) := s.WS.recorded s.contract

/-- The buffer `initialize` makes: `Size` bytes, 256 kB when `Size` is zero. -/
def initialWriter (Size : Int) : bufio.Writer :=
  bufio.NewWriterSize (if Size = 0 then defaultBufferSize else Size)

/-- The buffer `Write` uses: the syncer's, or the one `initialize` makes if it has not run. -/
def current (s : BufferedWriteSyncer σ) : bufio.Writer := s.writer.getD (initialWriter s.Size)

/-- `Write(bs)`: the count and the error, the syncer and the world. -/
def Write (s : BufferedWriteSyncer σ) (bs : List UInt8) (w : σ × List (List UInt8)) :
    (Nat × Option Err) × BufferedWriteSyncer σ × (σ × List (List UInt8)) :=
  -- `if !s.initialized { s.initialize() }`
  let b := s.current
  -- to keep a write whole, flush first what is buffered when the write does not fit
  if b.Available < bs.length ∧ 0 < b.Buffered then
    let f := b.Flush s.wr w
    match f.1 with
    | some err => ((0, some err), { s with writer := some f.2.1 }, f.2.2)
    | none =>
      let r := f.2.1.Write s.wr bs f.2.2
      (r.1, { s with writer := some r.2.1 }, r.2.2)
  else
    let r := b.Write s.wr bs w
    (r.1, { s with writer := some r.2.1 }, r.2.2)

/-- `Sync()`: flush the buffer if there is one, then `WS.Sync`. -/
def Sync (s : BufferedWriteSyncer σ) (w : σ × List (List UInt8)) :
    Option Err × BufferedWriteSyncer σ × (σ × List (List UInt8)) :=
  let f : Option Err × BufferedWriteSyncer σ × (σ × List (List UInt8)) :=
    match s.writer with
    | some b =>
      let r := b.Flush s.wr w
      (r.1, { s with writer := some r.2.1 }, r.2.2)
    | none => (none, s, w)
  let r := (f.2.1.WS.Sync).run f.2.2.1
  (multierrAppend f.1 r.1, f.2.1, (r.2, f.2.2.2))

/-- `Stop()`: nothing when the syncer was never written to or is stopped already, else a final
`Sync` once the flush loop has ended. -/
def Stop (s : BufferedWriteSyncer σ) (w : σ × List (List UInt8)) :
    Option Err × BufferedWriteSyncer σ × (σ × List (List UInt8)) :=
  if s.writer = none ∨ s.stopped then (none, s, w)
  else Sync { s with stopped := true } w

/-- A call on the syncer: `Write`, `Sync`, or a tick of the flush loop, which calls `Sync` and
drops its error. -/
inductive Op where
  | write (bs : List UInt8)
  | sync
  | tick

/-- One call: what a `Write` returned, the syncer and the world. -/
def step (s : BufferedWriteSyncer σ) (w : σ × List (List UInt8)) :
    Op → Option (Nat × Option Err) × BufferedWriteSyncer σ × (σ × List (List UInt8))
  | .write bs => let r := s.Write bs w; (some r.1, r.2.1, r.2.2)
  | .sync | .tick => let r := s.Sync w; (none, r.2.1, r.2.2)

/-- The calls in turn: what each `Write` returned, the syncer and the world. -/
def run (s : BufferedWriteSyncer σ) (w : σ × List (List UInt8)) :
    List Op → List (Nat × Option Err) × BufferedWriteSyncer σ × (σ × List (List UInt8))
  | [] => ([], s, w)
  | op :: ops =>
    let r := step s w op
    let rest := run r.2.1 r.2.2 ops
    (r.1.toList ++ rest.1, rest.2)

/-- The arguments of the `Write` calls of a run. -/
def writes : List Op → List (List UInt8)
  | [] => []
  | .write bs :: ops => bs :: writes ops
  | _ :: ops => writes ops

end BufferedWriteSyncer

/-! ### Writes in groups -/

/-- The writes `ws` are groups of consecutive writes, the `i`-th received whole by the `i`-th
call, then the writes whose bytes `buf` holds. -/
def Grouped (calls ws : List (List UInt8)) (buf : List UInt8) : Prop :=
  ∃ (gs : List (List (List UInt8))) (pending : List (List UInt8)),
    ws = gs.flatten ++ pending ∧ calls = gs.map List.flatten ∧ buf = pending.flatten

namespace Grouped

variable {calls ws : List (List UInt8)} {buf : List UInt8}

theorem nil : Grouped [] [] [] := ⟨[], [], rfl, rfl, rfl⟩

/-- A write copied into the buffer joins the pending writes. -/
theorem append_buf (h : Grouped calls ws buf) (bs : List UInt8) :
    Grouped calls (ws ++ [bs]) (buf ++ bs) := by
  obtain ⟨gs, pending, hws, hcalls, hbuf⟩ := h
  exact ⟨gs, pending ++ [bs], by simp [hws], hcalls, by simp [hbuf]⟩

/-- A flush closes the group of the pending writes. -/
theorem flush (h : Grouped calls ws buf) : Grouped (calls ++ [buf]) ws [] := by
  obtain ⟨gs, pending, hws, hcalls, hbuf⟩ := h
  exact ⟨gs ++ [pending], [], by simp [hws], by simp [hcalls, hbuf], rfl⟩

/-- A write handed whole to a call, from an empty buffer, closes a group of its own with the
empty writes pending. -/
theorem direct (h : Grouped calls ws []) (bs : List UInt8) :
    Grouped (calls ++ [bs]) (ws ++ [bs]) [] := by
  simpa using (h.append_buf bs).flush

/-- With nothing buffered, the calls received every byte written, in order. -/
theorem flatten_eq (h : Grouped calls ws []) : calls.flatten = ws.flatten := by
  obtain ⟨gs, pending, hws, hcalls, hbuf⟩ := h
  simp [hws, hcalls, List.flatten_flatten, ← hbuf]

end Grouped

namespace BufferedWriteSyncer

/-! ### The invariant -/

/-- After the writes `ws`, with `calls` the arguments `WS.Write` has received: no error is stored,
and the writes are grouped by the calls, then the buffer. -/
structure Inv (s : BufferedWriteSyncer σ) (calls ws : List (List UInt8)) : Prop where
  noErr : s.current.err = none
  grouped : Grouped calls ws s.current.buf

@[simp] theorem current_writer (s : BufferedWriteSyncer σ) (b : bufio.Writer) :
    ({ s with writer := some b } : BufferedWriteSyncer σ).current = b := rfl

/-- Every call changes the buffer only. -/
theorem step_frame (s : BufferedWriteSyncer σ) (w : σ × List (List UInt8)) (op : Op) :
    ∃ b, (step s w op).2.1 = { s with writer := b } := by
  cases op with
  | write bs =>
    simp only [step, Write]
    split
    · split <;> exact ⟨_, rfl⟩
    · exact ⟨_, rfl⟩
  | sync | tick =>
    simp only [step, Sync]
    split <;> exact ⟨_, rfl⟩

/-- A run changes the buffer only. -/
theorem run_frame (ops : List Op) :
    ∀ (s : BufferedWriteSyncer σ) w, ∃ b, (run s w ops).2.1 = { s with writer := b } := by
  induction ops with
  | nil => intro s w; exact ⟨s.writer, rfl⟩
  | cons op ops ih =>
    intro s w
    obtain ⟨b₁, h₁⟩ := step_frame s w op
    obtain ⟨b₂, h₂⟩ := ih (step s w op).2.1 (step s w op).2.2
    exact ⟨b₂, by rw [run, h₂, h₁]⟩

section Accepts

variable {s : BufferedWriteSyncer σ} (hacc : s.WS.Accepts)
include hacc

/-- A flush hands the buffer, if not empty, to `WS` in one call and empties it. -/
theorem flush_grouped {b : bufio.Writer} {ws : List (List UInt8)} {w : σ × List (List UInt8)}
    (he : b.err = none) (hg : Grouped w.2 ws b.buf) :
    (b.Flush s.wr w).1 = none ∧ (b.Flush s.wr w).2.1.err = none ∧
      (b.Flush s.wr w).2.1.buf = [] ∧ (b.Flush s.wr w).2.1.size = b.size ∧
      (b.Flush s.wr w).2.2.1 = (if b.buf = [] then w.1 else ((s.WS.Write b.buf).run w.1).2) ∧
      Grouped (b.Flush s.wr w).2.2.2 ws [] := by
  by_cases hempty : b.buf = []
  · -- nothing buffered: no call
    rw [bufio.Writer.Flush_empty b w hempty, he]
    exact ⟨rfl, rfl, hempty, rfl, by simp [hempty], hempty ▸ hg⟩
  · have hacc' : s.wr.Accepts := hacc.recorded s.contract
    rw [bufio.Writer.Flush_accepts hacc' b w he hempty]
    exact ⟨rfl, he, rfl, rfl, by simp [hempty, wr, WriteSyncer.recorded], hg.flush⟩

/-- `Write` returns the length of its argument and no error, and keeps the invariant: the write
joins the buffer, or is handed whole to `WS` after the buffer was flushed or from an empty one. -/
theorem Inv.write {w : σ × List (List UInt8)} {ws : List (List UInt8)} (hinv : Inv s w.2 ws)
    (bs : List UInt8) :
    (s.Write bs w).1 = (bs.length, none) ∧ Inv (s.Write bs w).2.1 (s.Write bs w).2.2.2 (ws ++ [bs]) := by
  obtain ⟨he, hg⟩ := hinv
  have hacc' : s.wr.Accepts := hacc.recorded s.contract
  unfold Write
  by_cases hpre : s.current.Available < bs.length ∧ 0 < s.current.Buffered
  · -- the buffer is flushed first, then `bs` fits in it or is written whole
    rw [if_pos hpre]
    obtain ⟨hf1, hfe, hfbuf, -, -, hfg⟩ := flush_grouped hacc he hg
    simp only [hf1]
    by_cases hfit : bs.length ≤ (s.current.Flush s.wr w).2.1.Available
    · rw [bufio.Writer.Write_fits _ _ _ hfe hfit]
      refine ⟨rfl, hfe, ?_⟩
      simpa [bufio.Writer.fill_buf_of_le _ hfit, hfbuf] using hfg.append_buf bs
    · rw [bufio.Writer.Write_direct hacc' _ _ _ hfe (by simp [bufio.Writer.Buffered, hfbuf])
        (by omega)]
      refine ⟨rfl, hfe, ?_⟩
      dsimp only
      rw [current_writer, hfbuf]
      simpa [wr, WriteSyncer.recorded] using hfg.direct bs
  · rw [if_neg hpre]
    by_cases hfit : bs.length ≤ s.current.Available
    · rw [bufio.Writer.Write_fits _ _ _ he hfit]
      exact ⟨rfl, he, by simpa [bufio.Writer.fill_buf_of_le _ hfit] using hg.append_buf bs⟩
    · -- `bs` does not fit, so the buffer is empty: `bs` is written whole
      have hbuf : s.current.buf = [] := by
        have : ¬0 < s.current.Buffered := fun h => hpre ⟨by omega, h⟩
        simpa [bufio.Writer.Buffered] using this
      rw [bufio.Writer.Write_direct hacc' _ _ _ he (by simp [bufio.Writer.Buffered, hbuf])
        (by omega)]
      exact ⟨rfl, he, by simpa [hbuf, wr, WriteSyncer.recorded] using (hbuf ▸ hg).direct bs⟩

/-- `Sync` keeps the invariant and leaves the buffer empty. -/
theorem Inv.sync {w : σ × List (List UInt8)} {ws : List (List UInt8)} (hinv : Inv s w.2 ws) :
    Inv (s.Sync w).2.1 (s.Sync w).2.2.2 ws ∧ (s.Sync w).2.1.current.buf = [] := by
  obtain ⟨he, hg⟩ := hinv
  unfold Sync
  cases hw : s.writer with
  | none =>
    -- no buffer yet: the one `initialize` would make is empty
    have hcur : s.current = initialWriter s.Size := by simp [current, hw]
    exact ⟨⟨he, hg⟩, by rw [hcur]; rfl⟩
  | some b =>
    have hcur : s.current = b := by simp [current, hw]
    rw [hcur] at he hg
    obtain ⟨-, hfe, hfbuf, -, -, hfg⟩ := flush_grouped hacc he hg
    exact ⟨⟨hfe, by simpa [hfbuf] using hfg⟩, hfbuf⟩

/-- One call keeps the invariant; a `Write` returns its length and no error. -/
theorem step_inv {w : σ × List (List UInt8)} {ws : List (List UInt8)} (hinv : Inv s w.2 ws)
    (op : Op) :
    (step s w op).1.toList = (writes [op]).map (fun bs => (bs.length, none)) ∧
      Inv (step s w op).2.1 (step s w op).2.2.2 (ws ++ writes [op]) := by
  cases op with
  | write bs =>
    obtain ⟨hr, hinv'⟩ := hinv.write hacc bs
    exact ⟨by simp [step, hr, writes], by simpa [step, writes] using hinv'⟩
  | sync => exact ⟨rfl, by simpa [step, writes] using (hinv.sync hacc).1⟩
  | tick => exact ⟨rfl, by simpa [step, writes] using (hinv.sync hacc).1⟩

end Accepts

/-- A run keeps the invariant, and each `Write` returns its length and no error. -/
theorem run_inv (ops : List Op) :
    ∀ (s : BufferedWriteSyncer σ) (w : σ × List (List UInt8)) (ws : List (List UInt8)),
      s.WS.Accepts → Inv s w.2 ws →
      (run s w ops).1 = (writes ops).map (fun bs => (bs.length, none)) ∧
        Inv (run s w ops).2.1 (run s w ops).2.2.2 (ws ++ writes ops) := by
  induction ops with
  | nil => intro s w ws _ hinv; simpa [run, writes] using hinv
  | cons op ops ih =>
    intro s w ws hacc hinv
    -- `WS` is the same after the call, so it still takes every byte
    obtain ⟨b, hb⟩ := step_frame s w op
    have hacc' : (step s w op).2.1.WS.Accepts := by rw [hb]; exact hacc
    obtain ⟨h₁, h₂⟩ := step_inv hacc hinv op
    obtain ⟨ih₁, ih₂⟩ := ih _ _ _ hacc' h₂
    have hw : writes (op :: ops) = writes [op] ++ writes ops := by cases op <;> rfl
    refine ⟨?_, ?_⟩
    · rw [run, hw, List.map_append, ← h₁, ← ih₁]
    · rw [run, hw, ← List.append_assoc]
      exact ih₂

/-- A syncer as a program makes it, `&BufferedWriteSyncer{WS: ws, Size: size}`. -/
def fresh (ws : WriteSyncer σ) (h : ws.Contract) (Size : Int) : BufferedWriteSyncer σ :=
  ⟨ws, h, Size, false, none⟩

/-- A fresh syncer over a `WS` that takes every byte, after any calls and a final `Sync` or
`Stop`: each `Write` returned its length and no error, each call of `WS.Write` received whole
consecutive writes, and together, in order, the calls received every byte written. -/
theorem run_sync_calls (ws : WriteSyncer σ) (hacc : ws.Accepts) (Size : Int) (st : σ)
    (ops : List Op) (stop : Bool) :
    let r := run (fresh ws hacc.contract Size) (st, []) ops
    let e := if stop then r.2.1.Stop r.2.2 else r.2.1.Sync r.2.2
    r.1 = (writes ops).map (fun bs => (bs.length, none)) ∧
      Grouped e.2.2.2 (writes ops) [] ∧ e.2.2.2.flatten = (writes ops).flatten := by
  intro r e
  have h₀ : Inv (fresh ws hacc.contract Size) [] [] := ⟨rfl, Grouped.nil⟩
  have hrun := run_inv ops _ (st, []) [] hacc h₀
  have hres : r.1 = (writes ops).map (fun bs => (bs.length, none)) := hrun.1
  have hinv : Inv r.2.1 r.2.2.2 (writes ops) := hrun.2
  obtain ⟨b, hb⟩ := run_frame ops (fresh ws hacc.contract Size) (st, [])
  have hacc' : r.2.1.WS.Accepts := by rw [show r.2.1 = _ from hb]; exact hacc
  -- after the final call nothing is buffered
  have hfinal : Grouped e.2.2.2 (writes ops) [] := by
    cases stop with
    | false =>
      obtain ⟨⟨-, hg⟩, hbuf⟩ := hinv.sync hacc'
      simpa [e, hbuf] using hg
    | true =>
      have hstopped : r.2.1.stopped = false := by rw [show r.2.1 = _ from hb]; rfl
      simp only [e, if_true, Stop, hstopped, Bool.false_eq_true, or_false]
      split
      · -- `Write` never ran: the buffer `initialize` would make is empty
        next hw =>
        have hbuf : r.2.1.current.buf = [] := by simp [current, hw]; rfl
        simpa [hbuf] using hinv.grouped
      · have hacc'' : ({ r.2.1 with stopped := true } : BufferedWriteSyncer σ).WS.Accepts := hacc'
        have hinv' : Inv { r.2.1 with stopped := true } r.2.2.2 (writes ops) :=
          ⟨hinv.noErr, hinv.grouped⟩
        obtain ⟨⟨-, hg⟩, hbuf⟩ := hinv'.sync hacc''
        simpa [hbuf] using hg
  exact ⟨hres, hfinal, hfinal.flatten_eq⟩

/-- A `WriteSyncer` with no state of its own that takes every byte. -/
def acceptAll : WriteSyncer Unit := ⟨fun p => pure (p.length, none), pure none⟩

theorem acceptAll_accepts : acceptAll.Accepts := fun _ _ => rfl

/-- Four bytes of buffer: `"ab"`, then `"cde"`, which does not fit and flushes `"ab"` first, a
tick, which flushes `"cde"`, then `"abcdef"`, written whole from the empty buffer, and `Stop`. -/
theorem run_sync_calls_acceptAll :
    let ops := [Op.write (ascii "ab"), .write (ascii "cde"), .tick, .write (ascii "abcdef")]
    let r := run (fresh acceptAll acceptAll_accepts.contract 4) ((), []) ops
    let e := if true then r.2.1.Stop r.2.2 else r.2.1.Sync r.2.2
    r.1 = (writes ops).map (fun bs => (bs.length, none)) ∧
      Grouped e.2.2.2 (writes ops) [] ∧ e.2.2.2.flatten = (writes ops).flatten :=
  run_sync_calls acceptAll acceptAll_accepts 4 () _ true

end BufferedWriteSyncer

end Lad
