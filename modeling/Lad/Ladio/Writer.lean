import Lad.Lib.Lines
import Lad.Ladcore.Encoder

/-!
# `ladio.Writer`

An `io.Writer` that logs each line written to it, buffering a line until its newline, and logging
what is buffered on `Close` and `Sync`. Written in any chunks, it logs the lines of the whole
stream (`close_writeAll`); the run invariant is `Joined`.
-/

namespace Lad

namespace Ladio

/-- `'\n'`. -/
def newline : UInt8 := 0x0A

/-- `Writer`: the buffered partial line, and the messages `log` has passed to `Log.Check` at
`Level`, in order. -/
structure Writer where
  buff : List UInt8
  logged : List (List UInt8)

namespace Writer

/-- A writer on a logger, with an empty buffer. -/
def init : Writer := ⟨[], []⟩

/-- `log(b)`: `Log.Check(Level, string(b))` and its `Write`. -/
def log (w : Writer) (b : List UInt8) : Writer := { w with logged := w.logged ++ [b] }

def flush (w : Writer) (allowEmpty : Bool) : Writer :=
  let w := if allowEmpty || w.buff.length > 0 then w.log w.buff else w
  { w with buff := [] }

/-- `writeLine(line)`: the writer after one line, and the bytes left. -/
def writeLine (w : Writer) (line : List UInt8) : Writer × List UInt8 :=
  match line.idxOf? newline with
  | none =>
    -- no newline: buffer the entire string
    ({ w with buff := w.buff ++ line }, [])
  | some idx =>
    let remaining := line.drop (idx + 1)
    let line := line.take idx
    -- fast path: no partial message from a previous write, log directly
    if w.buff.length = 0 then (w.log line, remaining)
    else (({ w with buff := w.buff ++ line }).flush true, remaining)

theorem writeLine_remaining_lt (w : Writer) {line : List UInt8} (h : line ≠ []) :
    (w.writeLine line).2.length < line.length := by
  unfold writeLine
  split
  · exact List.length_pos_iff.2 h
  · next idx hidx =>
    obtain ⟨hlt, -⟩ := List.idxOf?_eq_some_iff.1 hidx
    split <;> simp only [List.length_drop] <;> omega

/-- The loop of `Write`: one line at a time while bytes are left. -/
def writeLines (w : Writer) (bs : List UInt8) : Writer :=
  if bs = [] then w
  else writeLines (w.writeLine bs).1 (w.writeLine bs).2
termination_by bs.length
decreasing_by exact writeLine_remaining_lt w ‹_›

/-- `Write(bs)`, on a logger whose core does or does not enable the writer's level: the
writer, the count and the error. -/
def Write (enabled : Bool) (w : Writer) (bs : List UInt8) : Writer × Nat × Option Err :=
  -- skip all checks if the level is not enabled
  if !enabled then (w, bs.length, none)
  else (w.writeLines bs, bs.length, none)

/-- `Sync()`: what is buffered, as one message unless it is empty. -/
def Sync (w : Writer) : Writer × Option Err := (w.flush false, none)

def Close (w : Writer) : Writer × Option Err := w.Sync

end Writer

/-- The messages a stream holds: its pieces between newlines, but for a last piece that is
empty. -/
def lines (S : List UInt8) : List (List UInt8) :=
  let ps := S.splitOn newline
  if ps.getLast? = some [] then ps.dropLast else ps

/-- `Write` in turn on each chunk. -/
def writeAll (enabled : Bool) (w : Writer) (chunks : List (List UInt8)) : Writer :=
  chunks.foldl (fun w c => (Writer.Write enabled w c).1) w

/-! ### The invariant -/

/-- The lines logged, then the buffer, are the pieces of `S`, none holding a newline. -/
structure Joined (w : Writer) (S : List UInt8) : Prop where
  join : [newline].intercalate (w.logged ++ [w.buff]) = S
  pieces : ∀ p ∈ w.logged ++ [w.buff], newline ∉ p

namespace Joined

theorem init : Joined Writer.init [] where
  join := rfl
  pieces := by simp [Writer.init]

/-- Bytes with no newline go to the buffer. -/
theorem append_buff {w : Writer} {S : List UInt8} (h : Joined w S) {b : List UInt8}
    (hb : newline ∉ b) : Joined { w with buff := w.buff ++ b } (S ++ b) where
  join := by
    rw [← h.join]
    exact (List.intercalate_append_last _ _ _ _).symm
  pieces := by
    have hp := h.pieces
    simp only [List.mem_append, List.mem_singleton] at hp ⊢
    rintro p (hp' | rfl)
    · exact hp p (.inl hp')
    · simpa using ⟨hp _ (.inr rfl), hb⟩

/-- A newline logs the buffer and empties it. -/
theorem flush_newline {w : Writer} {S : List UInt8} (h : Joined w S) :
    Joined (w.flush true) (S ++ [newline]) where
  join := by
    rw [← h.join]
    simpa [Writer.flush, Writer.log] using
      (List.intercalate_append_sep [newline] w.buff w.logged).symm
  pieces := by
    intro p hmem
    have hmem' : p ∈ w.logged ∨ p = w.buff ∨ p = [] := by
      simpa [Writer.flush, Writer.log] using hmem
    rcases hmem' with hp | rfl | rfl
    · exact h.pieces p (by simp [hp])
    · exact h.pieces _ (by simp)
    · simp

end Joined

/-- One line keeps the invariant, for the bytes it consumed. -/
theorem Joined.writeLine {w : Writer} {S : List UInt8} (h : Joined w S) (line : List UInt8) :
    ∃ T, line = T ++ (w.writeLine line).2 ∧ Joined (w.writeLine line).1 (S ++ T) := by
  unfold Writer.writeLine
  split
  · next hnone =>
    refine ⟨line, by simp, h.append_buff ?_⟩
    exact List.idxOf?_eq_none_iff.1 hnone
  · next idx hidx =>
    obtain ⟨hsplit, hnot⟩ := List.idxOf?_eq_some_split hidx
    refine ⟨line.take idx ++ [newline], ?_, ?_⟩
    · conv_lhs => rw [hsplit]
      split <;> simp
    · rw [← List.append_assoc]
      have hbuf := (h.append_buff hnot).flush_newline
      split
      · -- the fast path logs the line as the flush of an empty buffer would
        next hempty =>
        have hb : w.buff = [] := List.eq_nil_of_length_eq_zero hempty
        have heq : w.log (line.take idx) =
            ({ w with buff := w.buff ++ line.take idx }).flush true := by
          simp [Writer.flush, Writer.log, hb]
        show Joined (w.log (line.take idx)) _
        rw [heq]
        exact hbuf
      · exact hbuf

/-- The loop of `Write` keeps the invariant, for the whole chunk. -/
theorem Joined.writeLines {w : Writer} {S : List UInt8} (h : Joined w S) (bs : List UInt8) :
    Joined (w.writeLines bs) (S ++ bs) := by
  rw [Writer.writeLines]
  split
  · next hbs =>
    subst hbs
    simpa using h
  · next hbs =>
    obtain ⟨T, hT, hJ⟩ := h.writeLine bs
    have hrest := hJ.writeLines (w.writeLine bs).2
    rwa [List.append_assoc, ← hT] at hrest
termination_by bs.length
decreasing_by exact Writer.writeLine_remaining_lt w ‹_›

/-- The pieces of the stream are the lines logged, then the buffer. -/
theorem Joined.splitOn {w : Writer} {S : List UInt8} (h : Joined w S) :
    S.splitOn newline = w.logged ++ [w.buff] := by
  rw [← h.join]
  exact List.splitOn_intercalate newline h.pieces (by simp)

/-- `Close` logs the lines of the stream and leaves nothing buffered. -/
theorem Joined.close {w : Writer} {S : List UInt8} (h : Joined w S) :
    w.Close.1.logged = lines S ∧ w.Close.1.buff = [] := by
  refine ⟨?_, rfl⟩
  simp only [lines, h.splitOn, List.getLast?_append, List.getLast?_singleton, Option.some_or,
    Option.some.injEq]
  -- the buffer is the last piece: logged by `Close` exactly when it is not empty
  by_cases hb : w.buff = []
  · simp [Writer.Close, Writer.Sync, Writer.flush, hb]
  · have hlen : 0 < w.buff.length := List.length_pos_iff.2 hb
    simp [Writer.Close, Writer.Sync, Writer.flush, Writer.log, hb, hlen]

/-- Writes on an enabled writer keep the invariant, for everything written. -/
theorem Joined.writeAll {w : Writer} {S : List UInt8} (h : Joined w S) :
    ∀ chunks : List (List UInt8), Joined (writeAll true w chunks) (S ++ chunks.flatten)
  | [] => by simpa [Ladio.writeAll] using h
  | c :: cs => by
    have hc := h.writeLines c
    simpa [Ladio.writeAll, Writer.Write] using hc.writeAll cs

/-- On a disabled writer, `Write` does nothing. -/
theorem writeAll_disabled (w : Writer) (chunks : List (List UInt8)) :
    writeAll false w chunks = w := by
  simp [writeAll, Writer.Write]

/-- Whatever the chunks, `Write` on each and then `Close` logs the lines of the whole stream;
nothing when the level is disabled, where nothing is buffered either. Each `Write` returns the
length of its chunk and no error. -/
theorem close_writeAll (enabled : Bool) (chunks : List (List UInt8)) :
    (writeAll enabled Writer.init chunks).Close.1.logged =
        (if enabled then lines chunks.flatten else []) ∧
      (writeAll enabled Writer.init chunks).Close.2 = none ∧
      (∀ w c, (Writer.Write enabled w c).2 = (c.length, none)) ∧
      (enabled = false → (writeAll enabled Writer.init chunks).buff = []) := by
  refine ⟨?logged, rfl, ?write, ?disabled⟩
  case logged =>
    cases enabled
    · simp [writeAll_disabled, Writer.Close, Writer.Sync, Writer.flush, Writer.init]
    · simpa using (Joined.init.writeAll chunks).close.1
  case write =>
    intro w c
    cases enabled <;> rfl
  case disabled =>
    rintro rfl
    simp [writeAll_disabled, Writer.init]

/-- A newline at the end of one chunk and one alone in the next: `"a\nb"`, `"\n"` and `""` log
`"a"` and `"b"`. -/
example :
    (writeAll true Writer.init [[0x61, 0x0A, 0x62], [0x0A], []]).Close.1.logged =
      [[0x61], [0x62]] := by
  decide +kernel

end Ladio

end Lad
