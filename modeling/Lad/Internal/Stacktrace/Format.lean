import Lad.Internal.Stacktrace
import Lad.Buffer

/-!
# Formatting stack traces

`FormatStack` formats every frame but the last, the runtime's own, one per line
(`FormatStack_bs`); `Take` writes the same text.
-/

namespace Lad

namespace stacktrace

/-- `runtime.Frame`, by what the formatter and the logger read of it. -/
structure Frame where
  PC : PC
  Function : List UInt8
  File : List UInt8
  Line : Int
  deriving DecidableEq, Repr

/-- `Formatter`: its buffer, and whether a frame has been written to it. -/
structure Formatter where
  b : Buffer
  nonEmpty : Bool

def NewFormatter (b : Buffer) : Formatter := ⟨b, false⟩

def Formatter.FormatFrame (sf : Formatter) (frame : Frame) : Formatter :=
  let b := if sf.nonEmpty then sf.b.appendByte 0x0A else sf.b
  ⟨(((((b.appendString frame.Function).appendByte 0x0A).appendByte 0x09).appendString
    frame.File).appendByte 0x3A).appendInt frame.Line, true⟩

/-- `FormatStack(stack)`, on the frames `Next` has still to give: a frame is formatted when `Next`
reports that another follows it. -/
def Formatter.FormatStack (sf : Formatter) : List Frame → Formatter
  | [] => sf
  | [_] => sf
  | frame :: next :: rest => (sf.FormatFrame frame).FormatStack (next :: rest)

/-- `Take(skip)` on the frames of a full capture past `skip`. -/
def Take (frames : List Frame) : List UInt8 := ((NewFormatter ⟨[]⟩).FormatStack frames).b.bs

/-- The text of one frame: `function\n\tfile:line`. -/
def frameText (frame : Frame) : List UInt8 :=
  frame.Function ++ [0x0A, 0x09] ++ frame.File ++ [0x3A] ++ Json.decimal frame.Line

/-- The frames written one per line. -/
def framesText (frames : List Frame) : List UInt8 := [0x0A].intercalate (frames.map frameText)

/-- Frames one per line: the first, then each of the others after a newline. -/
theorem framesText_cons (frame : Frame) :
    ∀ frames : List Frame,
      framesText (frame :: frames) =
        frameText frame ++ (frames.map fun f => [0x0A] ++ frameText f).flatten
  | [] => by simp [framesText]
  | next :: rest => by
    have ih := framesText_cons next rest
    simp only [framesText, List.map_cons, List.intercalate_cons_cons] at ih ⊢
    rw [ih]
    simp

@[simp] theorem FormatFrame_nonEmpty (sf : Formatter) (frame : Frame) :
    (sf.FormatFrame frame).nonEmpty = true := rfl

theorem FormatFrame_bs (sf : Formatter) (frame : Frame) :
    (sf.FormatFrame frame).b.bs =
      sf.b.bs ++ (if sf.nonEmpty then [0x0A] else []) ++ frameText frame := by
  unfold Formatter.FormatFrame frameText
  split <;> simp

/-- After the first frame, `FormatStack` adds every frame but the last, each after a newline. -/
theorem FormatStack_bs_of_nonEmpty :
    ∀ (sf : Formatter) (frames : List Frame), sf.nonEmpty = true →
      (sf.FormatStack frames).b.bs =
        sf.b.bs ++ (frames.dropLast.map fun f => [0x0A] ++ frameText f).flatten
  | sf, [], _ => by simp [Formatter.FormatStack]
  | sf, [_], _ => by simp [Formatter.FormatStack]
  | sf, frame :: next :: rest, hne => by
    have ih := FormatStack_bs_of_nonEmpty (sf.FormatFrame frame) (next :: rest) rfl
    rw [Formatter.FormatStack, ih, FormatFrame_bs, if_pos hne]
    simp

/-- `FormatStack` on a fresh formatter writes every frame but the last, one per line. -/
theorem FormatStack_bs (b : Buffer) (frames : List Frame) :
    ((NewFormatter b).FormatStack frames).b.bs = b.bs ++ framesText frames.dropLast := by
  match frames with
  | [] => simp [Formatter.FormatStack, NewFormatter, framesText]
  | [_] => simp [Formatter.FormatStack, NewFormatter, framesText]
  | frame :: next :: rest =>
    have h := FormatStack_bs_of_nonEmpty ((NewFormatter b).FormatFrame frame) (next :: rest) rfl
    rw [Formatter.FormatStack, h, FormatFrame_bs,
      List.dropLast_cons_of_ne_nil (List.cons_ne_nil _ _), framesText_cons]
    simp [NewFormatter]

/-- `Take` writes every frame but the last, one per line. -/
theorem Take_eq (frames : List Frame) : Take frames = framesText frames.dropLast := by
  exact FormatStack_bs ⟨[]⟩ frames

end stacktrace

end Lad
