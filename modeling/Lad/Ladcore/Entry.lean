import Lad.Ladcore.Level
import Lad.Lib.GoRuntime

/-!
# Entries

An `Entry` is what a log call produces before it is encoded: its level, time, logger name,
message, caller and stack trace.
-/

namespace Lad

open Go

/-- `EntryCaller`: where a log call was made, if that is known. -/
structure EntryCaller where
  defined : Bool
  pc : Nat
  file : List UInt8
  line : Int
  function : List UInt8
  deriving DecidableEq

/-- `EntryCaller.FullPath`, which `String` returns: `file:line`, or `undefined`. -/
def EntryCaller.fullPath (ec : EntryCaller) : List UInt8 :=
  if ec.defined then ec.file ++ ascii ":" ++ Json.decimal ec.line else ascii "undefined"

structure Entry where
  level : Level
  time : Time
  loggerName : List UInt8
  message : List UInt8
  caller : EntryCaller
  stack : List UInt8
  deriving DecidableEq

end Lad
