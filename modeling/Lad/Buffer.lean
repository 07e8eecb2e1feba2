import Mathlib.Data.List.Basic
import Lad.Lib.Decimal

/-!
# Byte buffers

`buffer.Buffer` is a byte slice that grows at its end. A Go `string` is a `List UInt8`, a
`[]byte` an `Array UInt8`, and a string literal of the source, always ASCII, `ascii "…"`.
-/

namespace Lad

/-- The bytes of an ASCII string literal. -/
def ascii (s : String) : List UInt8 := s.toList.map fun c => c.toNat.toUInt8

/-- `buffer.Buffer`: the bytes written so far. -/
@[ext] structure Buffer where
  bs : List UInt8
  deriving DecidableEq, Repr

namespace Buffer

def appendByte (b : Buffer) (v : UInt8) : Buffer := ⟨b.bs ++ [v]⟩

/-- `AppendBytes`, of a `[]byte`. -/
def appendBytes (b : Buffer) (v : Array UInt8) : Buffer := ⟨b.bs ++ v.toList⟩

/-- `AppendString`, of a `string`. -/
def appendString (b : Buffer) (s : List UInt8) : Buffer := ⟨b.bs ++ s⟩

/-- `AppendInt`: `strconv.AppendInt` in base 10. -/
def appendInt (b : Buffer) (i : Int) : Buffer := ⟨b.bs ++ Json.decimal i⟩

@[simp] theorem appendByte_bs (b : Buffer) (v : UInt8) : (b.appendByte v).bs = b.bs ++ [v] := rfl

@[simp] theorem appendBytes_bs (b : Buffer) (v : Array UInt8) :
    (b.appendBytes v).bs = b.bs ++ v.toList := rfl

@[simp] theorem appendString_bs (b : Buffer) (s : List UInt8) :
    (b.appendString s).bs = b.bs ++ s := rfl

@[simp] theorem appendInt_bs (b : Buffer) (i : Int) : (b.appendInt i).bs = b.bs ++ Json.decimal i :=
  rfl

end Buffer

end Lad
