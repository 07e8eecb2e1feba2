import Lad.Buffer
import Lad.Lib.Decimal

/-!
# Levels

`ladcore.Level` is an `int8`, from `DebugLevel = -1` to `FatalLevel = 5`, with `InvalidLevel = 6`
one past them. A level enables itself and every higher level.
-/

namespace Lad

/-- `Level`, a logging priority. -/
abbrev Level := Int8

def DebugLevel : Level := -1
def InfoLevel : Level := 0
def WarnLevel : Level := 1
def ErrorLevel : Level := 2
def DPanicLevel : Level := 3
def PanicLevel : Level := 4
def FatalLevel : Level := 5
def InvalidLevel : Level := 6

namespace Level

/-- `Level.String`: the lower-case name, `Level(n)` for a value with no name. -/
def string (l : Level) : List UInt8 :=
  if l = DebugLevel then ascii "debug"
  else if l = InfoLevel then ascii "info"
  else if l = WarnLevel then ascii "warn"
  else if l = ErrorLevel then ascii "error"
  else if l = DPanicLevel then ascii "dpanic"
  else if l = PanicLevel then ascii "panic"
  else if l = FatalLevel then ascii "fatal"
  else ascii "Level(" ++ Json.decimal l.toInt ++ ascii ")"

def capitalString (l : Level) : List UInt8 :=
  if l = DebugLevel then ascii "DEBUG"
  else if l = InfoLevel then ascii "INFO"
  else if l = WarnLevel then ascii "WARN"
  else if l = ErrorLevel then ascii "ERROR"
  else if l = DPanicLevel then ascii "DPANIC"
  else if l = PanicLevel then ascii "PANIC"
  else if l = FatalLevel then ascii "FATAL"
  else ascii "LEVEL(" ++ Json.decimal l.toInt ++ ascii ")"

/-- `Level.Enabled`: `lvl` is at or above `l`. -/
def Enabled (l lvl : Level) : Prop := l ≤ lvl

instance (l lvl : Level) : Decidable (l.Enabled lvl) := inferInstanceAs (Decidable (l ≤ lvl))

example : Level.string 7 = ascii "Level(7)" := by decide

end Level

end Lad
