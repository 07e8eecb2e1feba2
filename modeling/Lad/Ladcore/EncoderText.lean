import Lad.Ladcore.Caller

/-!
# Encoders by name

Each encoder type's `UnmarshalText` is a `switch` on the text with a default (`switchText`).
Two differ from their documentation: `colored` and `coloredCapital` give the plain lower-case
level encoder (`LevelEncoder_UnmarshalText_colored`), and the duration default is
`SecondsDurationEncoder`, not `NanosDurationEncoder` (`DurationEncoder_UnmarshalText_default`).
-/

namespace Lad

open Go

/-! ### The encoders -/

/-- `color.Color`, a foreground colour by its SGR code. -/
abbrev color.Color := UInt8

def color.Red : color.Color := 31
def color.Yellow : color.Color := 33
def color.Blue : color.Color := 34
def color.Magenta : color.Color := 35

/-- `Color.Add(s)`: `fmt.Sprintf("\x1b[%dm%s\x1b[0m", uint8(c), s)`. -/
def color.Color.Add (c : color.Color) (s : List UInt8) : List UInt8 :=
  [0x1B, 0x5B] ++ Json.decimal c.toNat ++ [0x6D] ++ s ++ [0x1B, 0x5B, 0x30, 0x6D]

def levelToColor (l : Level) : Option color.Color :=
  if l = DebugLevel then some color.Magenta
  else if l = InfoLevel then some color.Blue
  else if l = WarnLevel then some color.Yellow
  else if l = ErrorLevel ∨ l = DPanicLevel ∨ l = PanicLevel ∨ l = FatalLevel then some color.Red
  else none

def unknownLevelColor : color.Color := color.Red

/-- `_levelToLowercaseColorString[l]`, which `init` fills from `_levelToColor`. -/
def levelToLowercaseColorString (l : Level) : Option (List UInt8) :=
  (levelToColor l).map fun c => color.Color.Add c l.string

/-- `_levelToCapitalColorString[l]`. -/
def levelToCapitalColorString (l : Level) : Option (List UInt8) :=
  (levelToColor l).map fun c => color.Color.Add c l.capitalString

/-- `LowercaseColorLevelEncoder`: the coloured name, in the unknown level's colour when the map
has none. -/
def LowercaseColorLevelEncoder (l : Level) : List PrimCall :=
  [.append (.string ((levelToLowercaseColorString l).getD (color.Color.Add unknownLevelColor l.string)))]

def CapitalColorLevelEncoder (l : Level) : List PrimCall :=
  [.append (.string
    ((levelToCapitalColorString l).getD (color.Color.Add unknownLevelColor l.capitalString)))]

/-- What the time and duration encoders use of Go: `float64(a) / float64(b)` of two `int64`
values, by its bits, and `time.Duration.String`. -/
structure TimeRuntime where
  quo : Int → Int → UInt64
  durationString : Int → List UInt8

section Encoders

variable (trt : TimeRuntime)

/-- `EpochTimeEncoder`: seconds since the epoch, as a float. -/
def EpochTimeEncoder (t : Time) : List PrimCall := [.append (.float64 (trt.quo t.unixNano 1000000000))]

/-- `EpochMillisTimeEncoder`: milliseconds since the epoch, as a float. -/
def EpochMillisTimeEncoder (t : Time) : List PrimCall :=
  [.append (.float64 (trt.quo t.unixNano 1000000))]

/-- `SecondsDurationEncoder`: seconds, as a float. -/
def SecondsDurationEncoder (d : Int) : List PrimCall := [.append (.float64 (trt.quo d 1000000000))]

/-- `StringDurationEncoder`: `d.String()`. -/
def StringDurationEncoder (d : Int) : List PrimCall := [.append (.string (trt.durationString d))]

end Encoders

/-- `RFC3339TimeEncoder`: `time.RFC3339`. -/
def RFC3339TimeEncoder : Time → List PrimCall := TimeEncoderOfLayout (ascii "2006-01-02T15:04:05Z07:00")

/-- `RFC3339NanoTimeEncoder`: `time.RFC3339Nano`. -/
def RFC3339NanoTimeEncoder : Time → List PrimCall :=
  TimeEncoderOfLayout (ascii "2006-01-02T15:04:05.999999999Z07:00")

/-! ### The switches -/

/-- A `switch string(text)` whose cases list their labels, with a `default`. -/
def switchText {β : Type} (cases : List (List (List UInt8) × β)) (dflt : β) (text : List UInt8) :
    β :=
  ((cases.find? fun c => c.1.contains text).map Prod.snd).getD dflt

def LevelEncoder.UnmarshalText (text : List UInt8) : Level → List PrimCall :=
  switchText [([ascii "capital"], CapitalLevelEncoder),
    ([ascii "capitalColor"], CapitalColorLevelEncoder),
    ([ascii "color"], LowercaseColorLevelEncoder)] LowercaseLevelEncoder text

def TimeEncoder.UnmarshalText (trt : TimeRuntime) (text : List UInt8) : Time → List PrimCall :=
  switchText [([ascii "rfc3339nano", ascii "RFC3339Nano"], RFC3339NanoTimeEncoder),
    ([ascii "rfc3339", ascii "RFC3339"], RFC3339TimeEncoder),
    ([ascii "iso8601", ascii "ISO8601"], ISO8601TimeEncoder),
    ([ascii "millis"], EpochMillisTimeEncoder trt),
    ([ascii "nanos"], EpochNanosTimeEncoder)] (EpochTimeEncoder trt) text

def DurationEncoder.UnmarshalText (trt : TimeRuntime) (text : List UInt8) : Int → List PrimCall :=
  switchText [([ascii "string"], StringDurationEncoder trt),
    ([ascii "nanos"], NanosDurationEncoder),
    ([ascii "ms"], MillisDurationEncoder)] (SecondsDurationEncoder trt) text

def CallerEncoder.UnmarshalText (text : List UInt8) : EntryCaller → List PrimCall :=
  switchText [([ascii "full"], FullCallerEncoder)] ShortCallerEncoder text

/-- `NameEncoder.UnmarshalText`: both of its branches give `FullNameEncoder`. -/
def NameEncoder.UnmarshalText (text : List UInt8) : List UInt8 → List PrimCall :=
  switchText [([ascii "full"], FullNameEncoder)] FullNameEncoder text

/-! ### What the switches pick -/

section Switch

variable {β : Type} (dflt : β) (text : List UInt8)

theorem switchText_cons_of_not_mem {labels : List (List UInt8)} {b : β}
    (cases : List (List (List UInt8) × β)) (h : text ∉ labels) :
    switchText ((labels, b) :: cases) dflt text = switchText cases dflt text := by
  simp [switchText, h]

/-- A text that no case lists gives the default. -/
theorem switchText_of_not_mem :
    ∀ cases : List (List (List UInt8) × β), (∀ c ∈ cases, text ∉ c.1) →
      switchText cases dflt text = dflt
  | [], _ => rfl
  | (labels, b) :: cases, h => by
    rw [switchText_cons_of_not_mem dflt text cases (h _ List.mem_cons_self)]
    exact switchText_of_not_mem cases fun c hc => h c (List.mem_cons_of_mem _ hc)

end Switch

/-- The names the documentation gives for the coloured level encoders, `colored` and
`coloredCapital`, are not among the cases: each gives the plain lower-case name, with no colour,
at every level. -/
theorem LevelEncoder_UnmarshalText_colored (l : Level) :
    LevelEncoder.UnmarshalText (ascii "colored") l = [.append (.string l.string)] ∧
      LevelEncoder.UnmarshalText (ascii "coloredCapital") l = [.append (.string l.string)] := by
  have hcases : ∀ text ∈ [ascii "colored", ascii "coloredCapital"],
      LevelEncoder.UnmarshalText text = LowercaseLevelEncoder := by
    intro text htext
    apply switchText_of_not_mem
    simp only [List.mem_cons, List.not_mem_nil, or_false] at htext
    rcases htext with rfl | rfl <;> decide
  exact ⟨congrFun (hcases _ (by simp)) l, congrFun (hcases _ (by simp)) l⟩

/-- Any text but `string`, `nanos` and `ms` gives `SecondsDurationEncoder`, not the
`NanosDurationEncoder` the documentation names: a float of seconds, never an integer. -/
theorem DurationEncoder_UnmarshalText_default (trt : TimeRuntime) {text : List UInt8}
    (h : text ∉ [ascii "string", ascii "nanos", ascii "ms"]) (d : Int) :
    DurationEncoder.UnmarshalText trt text d = SecondsDurationEncoder trt d ∧
      DurationEncoder.UnmarshalText trt text d ≠ NanosDurationEncoder d := by
  have hdef : DurationEncoder.UnmarshalText trt text = SecondsDurationEncoder trt := by
    apply switchText_of_not_mem
    intro c hc
    simp only [List.mem_cons, List.not_mem_nil, or_false, not_or] at hc h
    obtain ⟨h1, h2, h3⟩ := h
    rcases hc with rfl | rfl | rfl <;> simpa
  rw [hdef]
  exact ⟨rfl, by simp [SecondsDurationEncoder, NanosDurationEncoder]⟩

end Lad
