import Mathlib.Data.List.Basic

/-!
# `bufio.Writer`

Go's buffered writer over an `io.Writer` taken with its contract (`IoWriter`), which is what
makes `Write`'s loop end (`loopMeasure_direct`, `loopMeasure_fill`). Over a writer that takes all
it is given, `Flush` writes the buffer in one call (`Flush_accepts`), and `Write` copies its
argument into the buffer or, from an empty buffer, writes it whole (`Write_direct`).
-/

namespace Go

/-- `io.ErrShortWrite`, `"short write"`. -/
def ErrShortWrite : List UInt8 := [0x73, 0x68, 0x6F, 0x72, 0x74, 0x20, 0x77, 0x72, 0x69, 0x74, 0x65]

/-- An `io.Writer` on a state `σ`: what `Write(p)` returns, the count and the error by its text,
with the contract of `io.Writer`, that it writes at most `len(p)` bytes and returns an error when
it writes fewer. -/
structure IoWriter (σ : Type) where
  Write : List UInt8 → σ → (Nat × Option (List UInt8)) × σ
  write_le : ∀ p s, (Write p s).1.1 ≤ p.length
  write_short : ∀ p s, (Write p s).1.1 < p.length → (Write p s).1.2 ≠ none

variable {σ : Type}

/-- A writer that writes all it is given and returns no error. -/
def IoWriter.Accepts (wr : IoWriter σ) : Prop := ∀ p s, (wr.Write p s).1 = (p.length, none)

namespace bufio

def defaultBufSize : Nat := 4096

/-- `bufio.Writer`: the error it stores, the buffered bytes `buf[0:n]` and the size `len(buf)`,
which they never exceed. -/
structure Writer where
  err : Option (List UInt8)
  buf : List UInt8
  size : Nat
  buf_le : buf.length ≤ size

/-- `NewWriterSize(w, size)`, for a `w` that is not itself a `bufio.Writer`: a size that is not
positive is the default. -/
def NewWriterSize (size : Int) : Writer where
  err := none
  buf := []
  size := if size ≤ 0 then defaultBufSize else size.toNat
  buf_le := Nat.zero_le _

namespace Writer

def Available (b : Writer) : Nat := b.size - b.buf.length

def Buffered (b : Writer) : Nat := b.buf.length

variable (wr : IoWriter σ)

/-- `Flush()`: the error, the writer and the state of `wr`. After a short write the bytes not
written are kept at the front of the buffer. -/
def Flush (b : Writer) (s : σ) : Option (List UInt8) × Writer × σ :=
  match b.err with
  | some e => (some e, b, s)
  | none =>
    if b.buf.length = 0 then (none, b, s)
    else
      let r := wr.Write b.buf s
      let err := if r.1.1 < b.buf.length ∧ r.1.2 = none then some ErrShortWrite else r.1.2
      match err with
      | some e =>
        (some e, { b with buf := b.buf.drop r.1.1, err := some e,
                          buf_le := by rw [List.length_drop]; exact Nat.le_trans (Nat.sub_le _ _) b.buf_le },
          r.2)
      | none => (none, { b with buf := [], buf_le := Nat.zero_le _ }, r.2)

/-- A flush with no stored error ends with an error stored or the buffer empty. -/
theorem Flush_err_or_empty (b : Writer) (s : σ) (h : b.err = none) :
    (Flush wr b s).2.1.err ≠ none ∨ (Flush wr b s).2.1.buf = [] := by
  unfold Flush
  rw [h]
  dsimp only
  split
  · next hlen => exact .inr (List.eq_nil_of_length_eq_zero hlen)
  · split <;> simp

/-- `copy(b.buf[b.n:], p)`: the buffer takes as much of `p` as fits. -/
def fill (b : Writer) (p : List UInt8) : Writer where
  err := b.err
  buf := b.buf ++ p.take b.Available
  size := b.size
  buf_le := by
    have := b.buf_le
    simp only [List.length_append, List.length_take, Available]
    omega

/-- The measure of `writeLoop`: whether no error is stored, the bytes left, the bytes buffered. -/
def loopMeasure (b : Writer) (p : List UInt8) : Nat × Nat × Nat :=
  (if b.err = none then 1 else 0, p.length, b.buf.length)

/-- A direct write, by the contract, stores an error or writes everything. -/
theorem loopMeasure_direct {b : Writer} {p : List UInt8} {s : σ} (hp : b.Available < p.length)
    (he : b.err = none) :
    Prod.Lex (· < ·) (Prod.Lex (· < ·) (· < ·))
      (loopMeasure { b with err := (wr.Write p s).1.2 } (p.drop (wr.Write p s).1.1))
      (loopMeasure b p) := by
  have hle := wr.write_le p s
  have hshort := wr.write_short p s
  simp only [loopMeasure, Prod.lex_def, he, if_true, List.length_drop]
  by_cases herr : (wr.Write p s).1.2 = none
  · -- no error: the contract says all of `p` was written
    have hall : ¬(wr.Write p s).1.1 < p.length := fun hlt => hshort hlt herr
    simp only [herr, if_true, true_and]
    omega
  · simp only [herr, if_false]
    omega

/-- Filling and flushing the buffer stores an error, or empties a buffer that was not empty. -/
theorem loopMeasure_fill {b : Writer} {p : List UInt8} (s : σ) (hb : b.Buffered ≠ 0)
    (he : b.err = none) :
    Prod.Lex (· < ·) (Prod.Lex (· < ·) (· < ·))
      (loopMeasure (Flush wr (b.fill p) s).2.1 (p.drop b.Available)) (loopMeasure b p) := by
  by_cases hok : (Flush wr (b.fill p) s).2.1.err = none
  · -- no error: the flush emptied the buffer, which was not empty
    have hempty : (Flush wr (b.fill p) s).2.1.buf = [] :=
      (Flush_err_or_empty wr (b.fill p) s he).resolve_left (not_not.2 hok)
    have hbuf : 0 < b.buf.length := Nat.pos_of_ne_zero hb
    simp only [loopMeasure, Prod.lex_def, he, hok, hempty, if_true, List.length_drop,
      List.length_nil, true_and]
    omega
  · simp only [loopMeasure, Prod.lex_def, he, hok, if_true, if_false]
    omega

/-- The loop of `Write`: while `p` does not fit and no error is stored, write it directly from an
empty buffer, or fill the buffer and flush it. The count so far, the writer, the bytes left and
the state. -/
def writeLoop (b : Writer) (p : List UInt8) (nn : Nat) (s : σ) : Nat × Writer × List UInt8 × σ :=
  if b.Available < p.length ∧ b.err = none then
    if b.Buffered = 0 then
      -- large write, empty buffer: write directly from `p` to avoid copy
      let r := wr.Write p s
      writeLoop { b with err := r.1.2 } (p.drop r.1.1) (nn + r.1.1) r.2
    else
      let n := b.Available
      let f := Flush wr (b.fill p) s
      writeLoop f.2.1 (p.drop n) (nn + n) f.2.2
  else (nn, b, p, s)
termination_by loopMeasure b p
decreasing_by
  · exact loopMeasure_direct wr ‹_ ∧ _›.1 ‹_ ∧ _›.2
  · exact loopMeasure_fill wr s ‹_› ‹_ ∧ _›.2

/-- `Write(p)`: the count and the error, the writer and the state. -/
def Write (b : Writer) (p : List UInt8) (s : σ) : (Nat × Option (List UInt8)) × Writer × σ :=
  let r := writeLoop wr b p 0 s
  match r.2.1.err with
  | some e => ((r.1, some e), r.2.1, r.2.2.2)
  | none => ((r.1 + min r.2.1.Available r.2.2.1.length, none), r.2.1.fill r.2.2.1, r.2.2.2)

/-! ### Over a writer that takes everything -/

variable {wr}

/-- `Flush` of a non-empty buffer writes it in one call and empties it. -/
theorem Flush_accepts (hacc : wr.Accepts) (b : Writer) (s : σ) (he : b.err = none)
    (hb : b.buf ≠ []) :
    Flush wr b s = (none, { b with buf := [], buf_le := Nat.zero_le _ }, (wr.Write b.buf s).2) := by
  have hlen : b.buf.length ≠ 0 := by simpa using hb
  simp [Flush, he, hlen, hacc b.buf s]

/-- `Flush` of an empty buffer does nothing. -/
theorem Flush_empty (b : Writer) (s : σ) (hb : b.buf = []) : Flush wr b s = (b.err, b, s) := by
  unfold Flush
  split
  · next e he => rw [he]
  · next he => simp [he, hb]

/-- What fits is copied into the buffer, with no call. -/
theorem Write_fits (b : Writer) (p : List UInt8) (s : σ) (he : b.err = none)
    (hp : p.length ≤ b.Available) :
    Write wr b p s = ((p.length, none), b.fill p, s) := by
  have hloop : writeLoop wr b p 0 s = (0, b, p, s) := by
    rw [writeLoop, if_neg (by omega)]
  simp only [Write, hloop, he]
  congr
  omega

/-- The buffer after a copy that fits. -/
theorem fill_buf_of_le (b : Writer) {p : List UInt8} (hp : p.length ≤ b.Available) :
    (b.fill p).buf = b.buf ++ p := by
  simp [fill, List.take_of_length_le hp]

/-- From an empty buffer, what does not fit is written whole, in one call. -/
theorem Write_direct (hacc : wr.Accepts) (b : Writer) (p : List UInt8) (s : σ) (he : b.err = none)
    (hb : b.Buffered = 0) (hp : b.Available < p.length) :
    Write wr b p s = ((p.length, none), b, (wr.Write p s).2) := by
  have hr := hacc p s
  have hb' : { b with err := none } = b := by cases b; simp_all
  have hloop : writeLoop wr b p 0 s = (p.length, b, [], (wr.Write p s).2) := by
    rw [writeLoop, if_pos ⟨hp, he⟩, if_pos hb]
    simp only [hr, List.drop_length, Nat.zero_add, hb']
    rw [writeLoop, if_neg (by simp)]
  have hfill : b.fill [] = b := by cases b; simp_all [fill]
  simp [Write, hloop, he, hfill]

end Writer

end bufio

end Go
