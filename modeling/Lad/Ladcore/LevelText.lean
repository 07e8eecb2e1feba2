import Lad.Lib.Unicode
import Lad.Ladcore.Level

/-!
# Levels from text

`Level.UnmarshalText` reads a level name, and failing that the text lowered by `bytes.ToLower`.
On ASCII text it keeps the documented contract (`UnmarshalText_of_ascii`); past ASCII Unicode's
tables lower `U+0130` to `i`, so `İnfo` is read as `InfoLevel` (`UnmarshalText_dotted_I`).
-/

namespace Lad

open Go Utf8

/-- The errors of `Level.UnmarshalText`: `errUnmarshalNilLevel`, `"can't unmarshal a nil
*Level"`, and `"unrecognized level: %q"` of the text. -/
inductive LevelError
  | unmarshalNilLevel
  | unrecognized (text : List UInt8)
  deriving DecidableEq, Repr

namespace Level

/-- `Level.unmarshalText`: the level a lower-case name stands for, the empty text standing for
`InfoLevel` to make the zero value useful. -/
def unmarshalText (text : List UInt8) : Option Level :=
  if text = ascii "debug" then some DebugLevel
  else if text = ascii "info" ∨ text = [] then some InfoLevel
  else if text = ascii "warn" ∨ text = ascii "warning" then some WarnLevel
  else if text = ascii "error" then some ErrorLevel
  else if text = ascii "dpanic" then some DPanicLevel
  else if text = ascii "panic" then some PanicLevel
  else if text = ascii "fatal" then some FatalLevel
  else none

/-- `Level.UnmarshalText(text)` on a `*Level`, `none` for a nil pointer: what the receiver then
holds, and the error. -/
def UnmarshalText (lowerCase : Nat → Nat) (l : Option Level) (text : List UInt8) :
    Option Level × Option LevelError :=
  match l with
  | none => (none, some .unmarshalNilLevel)
  | some l =>
    match unmarshalText text with
    | some v => (some v, none)
    | none =>
      match unmarshalText (bytes.ToLower lowerCase text) with
      | some v => (some v, none)
      | none => (some l, some (.unrecognized text))

/-- `Level.Set(s)`, for the `flag.Value` interface. -/
def Set (lowerCase : Nat → Nat) (l : Option Level) (s : List UInt8) :
    Option Level × Option LevelError :=
  UnmarshalText lowerCase l s

end Level

/-- `ParseLevel(text)`: `UnmarshalText` into a zero `Level`. -/
def ParseLevel (lowerCase : Nat → Nat) (text : List UInt8) : Level × Option LevelError :=
  let r := Level.UnmarshalText lowerCase (some 0) text
  (r.1.getD 0, r.2)

/-- `AtomicLevel`: the pointer to the `atomic.Int32` holding its level, `nil` in the zero
value. -/
structure AtomicLevel where
  l : Option Level
  deriving DecidableEq, Repr

/-- `NewAtomicLevel()`, at `InfoLevel`. -/
def NewAtomicLevel : AtomicLevel := ⟨some InfoLevel⟩

/-- `AtomicLevel.UnmarshalText(text)`: a nil pointer first gets a fresh `atomic.Int32`, which
holds `0`; the text is read into a zero `Level`, which is stored on success. -/
def AtomicLevel.UnmarshalText (lowerCase : Nat → Nat) (lvl : AtomicLevel) (text : List UInt8) :
    AtomicLevel × Option LevelError :=
  let lvl : AtomicLevel := ⟨some (lvl.l.getD 0)⟩
  match Level.UnmarshalText lowerCase (some 0) text with
  | (_, some err) => (lvl, some err)
  | (l, none) => (⟨l⟩, none)

def ParseAtomicLevel (lowerCase : Nat → Nat) (text : List UInt8) :
    AtomicLevel × Option LevelError :=
  let a := NewAtomicLevel
  match ParseLevel lowerCase text with
  | (_, some err) => (a, some err)
  | (l, none) => (⟨some l⟩, none)

/-- The documented contract: the level named by the text's ASCII lower-casing. -/
def levelOfASCII (text : List UInt8) : Option Level :=
  Level.unmarshalText (text.map toLowerASCII)

/-! ### What `unmarshalText` accepts -/

/-- The texts `unmarshalText` accepts. -/
def levelNames : List (List UInt8) :=
  [ascii "debug", ascii "info", [], ascii "warn", ascii "warning", ascii "error", ascii "dpanic",
    ascii "panic", ascii "fatal"]

theorem unmarshalText_isSome_iff (text : List UInt8) :
    (Level.unmarshalText text).isSome ↔ text ∈ levelNames := by
  unfold Level.unmarshalText
  split_ifs <;> simp_all [levelNames] <;> tauto

theorem levelNames_lower : ∀ n ∈ levelNames, n.map toLowerASCII = n := by decide

/-- A name is already lower-case. -/
theorem unmarshalText_lower {text : List UInt8} {v : Level}
    (h : Level.unmarshalText text = some v) : text.map toLowerASCII = text :=
  levelNames_lower text ((unmarshalText_isSome_iff text).1 (by simp [h]))

/-! ### `UnmarshalText` -/

namespace Level

variable (lowerCase : Nat → Nat) (l : Level) (text : List UInt8)

/-- On a `*Level`, `UnmarshalText` stores a level and succeeds, or leaves the receiver as it
was and reports the text. -/
theorem UnmarshalText_cases :
    (∃ v, UnmarshalText lowerCase (some l) text = (some v, none)) ∨
      UnmarshalText lowerCase (some l) text = (some l, some (.unrecognized text)) := by
  simp only [UnmarshalText]
  split
  · exact .inl ⟨_, rfl⟩
  · split
    · exact .inl ⟨_, rfl⟩
    · exact .inr rfl

/-- On ASCII text, `UnmarshalText` keeps the documented contract. -/
theorem UnmarshalText_of_ascii {text : List UInt8} (hs : ∀ b ∈ text, b.toNat < RuneSelf) :
    UnmarshalText lowerCase (some l) text =
      match levelOfASCII text with
      | some v => (some v, none)
      | none => (some l, some (.unrecognized text)) := by
  unfold UnmarshalText
  cases h : unmarshalText text with
  | some v =>
    -- a name is its own lower-casing, so the contract reads the same level
    have hdoc : levelOfASCII text = some v := by rw [levelOfASCII, unmarshalText_lower h, h]
    rw [hdoc]
  | none =>
    rw [bytes.ToLower_of_ascii _ hs, ← levelOfASCII]

/-- `WARN`, in capitals, is read as `WarnLevel`. -/
theorem UnmarshalText_of_ascii_WARN :
    (∀ b ∈ ascii "WARN", b.toNat < RuneSelf) ∧
      UnmarshalText id (some InfoLevel) (ascii "WARN") =
        match levelOfASCII (ascii "WARN") with
        | some v => (some v, none)
        | none => (some InfoLevel, some (.unrecognized (ascii "WARN"))) :=
  ⟨by decide +kernel, UnmarshalText_of_ascii id InfoLevel (by decide +kernel)⟩

end Level

/-- An `AtomicLevel` that holds a level keeps it when the text is not read. -/
theorem AtomicLevel.UnmarshalText_err (lowerCase : Nat → Nat) {lvl : AtomicLevel} {v : Level}
    (hv : lvl.l = some v) (text : List UInt8)
    (herr : (AtomicLevel.UnmarshalText lowerCase lvl text).2 ≠ none) :
    (AtomicLevel.UnmarshalText lowerCase lvl text).1 = lvl := by
  rcases Level.UnmarshalText_cases lowerCase 0 text with ⟨w, hw⟩ | hw
  · simp [AtomicLevel.UnmarshalText, hw] at herr
  · cases lvl
    simp_all [AtomicLevel.UnmarshalText]

/-! ### Past ASCII -/

/-- `İnfo`, lower-cased by tables that map `U+0130` to `i`, is `info`. -/
theorem ToLower_dotted_I {lowerCase : Nat → Nat} (h : lowerCase 0x130 = 0x69) :
    bytes.ToLower lowerCase [0xC4, 0xB0, 0x6E, 0x66, 0x6F] = ascii "info" := by
  have hI : Char [0xC4, 0xB0] := .two (by decide) (by decide) (by decide)
  rw [bytes.ToLower, if_neg (by decide)]
  show bytes.Map _ ([0xC4, 0xB0] ++ [0x6E, 0x66, 0x6F]) = _
  rw [bytes.Map_char_append _ hI (by decide), bytes.Map_ascii_cons _ (by decide),
    bytes.Map_ascii_cons _ (by decide), bytes.Map_ascii_cons _ (by decide), bytes.Map_nil]
  have hdec : (decodeRune [0xC4, 0xB0]).1 = 0x130 := by decide
  simp [hdec, unicode.ToLower, MaxASCII, h]
  decide

/-- `İnfo` is no level name in any ASCII case, yet `UnmarshalText` and `ParseAtomicLevel` read it
as `InfoLevel` through Unicode's lower-casing of `U+0130`. -/
theorem UnmarshalText_dotted_I (lowerCase : Nat → Nat) (h : lowerCase 0x130 = 0x69) (l : Level) :
    levelOfASCII [0xC4, 0xB0, 0x6E, 0x66, 0x6F] = none ∧
      Level.UnmarshalText lowerCase (some l) [0xC4, 0xB0, 0x6E, 0x66, 0x6F] =
        (some InfoLevel, none) ∧
      ParseAtomicLevel lowerCase [0xC4, 0xB0, 0x6E, 0x66, 0x6F] = (⟨some InfoLevel⟩, none) := by
  have hread : ∀ l : Level, Level.UnmarshalText lowerCase (some l) [0xC4, 0xB0, 0x6E, 0x66, 0x6F] =
      (some InfoLevel, none) := by
    intro l
    have hraw : Level.unmarshalText [0xC4, 0xB0, 0x6E, 0x66, 0x6F] = none := by decide
    simp only [Level.UnmarshalText, hraw, ToLower_dotted_I h]
    rfl
  refine ⟨by decide, hread l, ?_⟩
  simp only [ParseAtomicLevel, ParseLevel, hread]
  rfl

theorem UnmarshalText_dotted_I_table :
    (fun r : Nat => if r = 0x130 then 0x69 else r) 0x130 = 0x69 ∧
      levelOfASCII [0xC4, 0xB0, 0x6E, 0x66, 0x6F] = none ∧
      Level.UnmarshalText (fun r : Nat => if r = 0x130 then 0x69 else r) (some WarnLevel)
          [0xC4, 0xB0, 0x6E, 0x66, 0x6F] = (some InfoLevel, none) ∧
      ParseAtomicLevel (fun r : Nat => if r = 0x130 then 0x69 else r)
          [0xC4, 0xB0, 0x6E, 0x66, 0x6F] = (⟨some InfoLevel⟩, none) :=
  ⟨rfl, UnmarshalText_dotted_I (fun r => if r = 0x130 then 0x69 else r) rfl WarnLevel⟩

end Lad
