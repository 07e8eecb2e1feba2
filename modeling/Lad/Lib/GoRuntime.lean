import Mathlib.Data.Int.Init
import Mathlib.Algebra.Group.Nat.Defs
import Mathlib.Algebra.Group.Int.Defs

/-!
# Values of Go's standard library

The parts of `time` and `math` the encoders read: a `time.Time` as seconds since year 1 and
nanoseconds, with `Unix`, `UnixNano` and `IsZero`, and a `float64` as its IEEE 754 bits. Signed
64-bit arithmetic wraps (`wrap64`).
-/

namespace Go

/-- An `int64` result of integer arithmetic: the value modulo `2^64`, in `[-2^63, 2^63)`. -/
def wrap64 (x : Int) : Int := Int.bmod x (2 ^ 64)

/-- A value that fits in an `int64` does not wrap. -/
theorem wrap64_of_range {x : Int} (h₁ : -2 ^ 63 ≤ x) (h₂ : x < 2 ^ 63) : wrap64 x = x :=
  Int.bmod_eq_of_le (by omega) (by omega)

/-- A wrapped value fits in an `int64`. -/
theorem wrap64_range (x : Int) : -2 ^ 63 ≤ wrap64 x ∧ wrap64 x < 2 ^ 63 := by
  have h₁ : -((2 ^ 64 : Nat) / 2 : Int) ≤ wrap64 x := Int.le_bmod (by decide)
  have h₂ : wrap64 x < ((2 ^ 64 : Nat) + 1) / 2 := Int.bmod_lt (by decide)
  constructor <;> omega

/-- A `*time.Location`, by its name. -/
structure Location where
  name : List UInt8
  deriving DecidableEq, Repr

def Location.local : Location := ⟨[0x4C, 0x6F, 0x63, 0x61, 0x6C]⟩

def Location.UTC : Location := ⟨[0x55, 0x54, 0x43]⟩

/-- A wall-clock `time.Time`: seconds since January 1, year 1, 00:00:00 UTC, the nanoseconds
within that second, and the location it is displayed in. -/
structure Time where
  sec : Int
  nsec : Nat
  loc : Location
  nsec_lt : nsec < 1000000000
  deriving DecidableEq

/-- `unixToInternal`: the seconds from year 1 to 1970. -/
def unixToInternal : Int := (1969 * 365 + 1969 / 4 - 1969 / 100 + 1969 / 400) * 86400

namespace Time

/-- `Time.IsZero`: the zero `time.Time`, January 1 of year 1. -/
def IsZero (t : Time) : Prop := t.sec = 0 ∧ t.nsec = 0

instance (t : Time) : Decidable t.IsZero := inferInstanceAs (Decidable (_ ∧ _))

/-- `Time.UnixNano`, which overflows outside about 1678 to 2262. -/
def unixNano (t : Time) : Int := wrap64 ((t.sec - unixToInternal) * 1000000000 + t.nsec)

def «in» (t : Time) (loc : Location) : Time := { t with loc }

/-- The nanoseconds from the Unix epoch to `t`, in unbounded integers: what `UnixNano` computes
before it wraps. -/
def epochNanos (t : Time) : Int := (t.sec - unixToInternal) * 1000000000 + t.nsec

/-- `Time.Before`, for times without a monotonic clock reading. -/
def Before (t u : Time) : Prop := t.sec < u.sec ∨ t.sec = u.sec ∧ t.nsec < u.nsec

/-- `Time.After`, for times without a monotonic clock reading. -/
def After (t u : Time) : Prop := u.sec < t.sec ∨ t.sec = u.sec ∧ u.nsec < t.nsec

/-- `Time.Equal`: the same instant, in whatever location. -/
def Equal (t u : Time) : Prop := t.sec = u.sec ∧ t.nsec = u.nsec

instance (t u : Time) : Decidable (t.Before u) := inferInstanceAs (Decidable (_ ∨ _))
instance (t u : Time) : Decidable (t.After u) := inferInstanceAs (Decidable (_ ∨ _))
instance (t u : Time) : Decidable (t.Equal u) := inferInstanceAs (Decidable (_ ∧ _))

theorem unixNano_eq (t : Time) : t.unixNano = wrap64 t.epochNanos := rfl

/-- Times are ordered as their distances from the epoch. -/
theorem before_iff (t u : Time) : t.Before u ↔ t.epochNanos < u.epochNanos := by
  have ht := t.nsec_lt
  have hu := u.nsec_lt
  unfold Before epochNanos
  omega

theorem after_iff (t u : Time) : t.After u ↔ u.epochNanos < t.epochNanos := by
  have ht := t.nsec_lt
  have hu := u.nsec_lt
  unfold After epochNanos
  omega

end Time

/-- `time.Unix(sec, nsec)`, in `time.Local`: `nsec` outside `[0, 10^9)` is carried into
`sec`. -/
def unix (sec nsec : Int) : Time where
  sec := sec + nsec / 1000000000 + unixToInternal
  nsec := (nsec % 1000000000).toNat
  loc := Location.local
  nsec_lt := by omega

/-- `time.Unix(0, n).UnixNano()` is `n`, wrapped. -/
theorem unixNano_unix (n : Int) : (unix 0 n).unixNano = wrap64 n := by
  have hnn : 0 ≤ n % 1000000000 := Int.emod_nonneg n (by decide)
  have hdiv := Int.emod_add_ediv_mul n 1000000000
  simp only [Time.unixNano, unix, Int.toNat_of_nonneg hnn]
  congr 1
  omega

/-- Within `int64`, `time.Unix(0, n).UnixNano()` is `n`. -/
theorem unixNano_unix_of_range {n : Int} (h₁ : -2 ^ 63 ≤ n) (h₂ : n < 2 ^ 63) :
    (unix 0 n).unixNano = n := by
  rw [unixNano_unix, wrap64_of_range h₁ h₂]

/-- `time.Unix(0, n)` is `n` nanoseconds from the epoch. -/
theorem epochNanos_unix (n : Int) : (unix 0 n).epochNanos = n := by
  have hnn : 0 ≤ n % 1000000000 := Int.emod_nonneg n (by decide)
  have hdiv := Int.emod_add_ediv_mul n 1000000000
  simp only [Time.epochNanos, unix, Int.toNat_of_nonneg hnn]
  omega

/-- `time.Unix(0, t.epochNanos).In(t.Location())` is `t`. -/
theorem unix_epochNanos_in (t : Time) : (unix 0 t.epochNanos).in t.loc = t := by
  obtain ⟨sec, nsec, loc, hlt⟩ := t
  have hsec : ((sec - unixToInternal) * 1000000000 + (nsec : Int)) / 1000000000 =
      sec - unixToInternal := by omega
  have hnsec : ((sec - unixToInternal) * 1000000000 + (nsec : Int)) % 1000000000 = nsec := by
    omega
  simp only [Time.in, unix, Time.epochNanos, hsec, hnsec, Int.toNat_natCast, Time.mk.injEq,
    and_true]
  omega

/-! ### Floating point -/

/-- `math.IsNaN`, on the bits of a `float64`: all exponent bits set, a nonzero fraction. -/
def isNaN (f : UInt64) : Bool :=
  (f.toNat >>> 52) % 2048 = 2047 && f.toNat % 2 ^ 52 != 0

/-- `math.IsInf(f, 1)`. -/
def isPosInf (f : UInt64) : Bool := f == 0x7FF0000000000000

/-- `math.IsInf(f, -1)`. -/
def isNegInf (f : UInt64) : Bool := f == 0xFFF0000000000000

/-- `f >= 0` for a `float64`: true of both zeros and every positive value, false of `NaN`. -/
def geZero (f : UInt64) : Bool := f == 0x8000000000000000 || (f.toNat < 2 ^ 63 && !isNaN f)

/-- `float64(f)` for the bits of a `float32`, which is exact: the exponent is rebiased from
127 to 1023 and the fraction widened from 23 to 52 bits, a subnormal `float32` becoming a
normal `float64`. -/
def float64OfFloat32 (f : UInt32) : UInt64 :=
  let sign := f.toNat >>> 31
  let exp := (f.toNat >>> 23) % 256
  let frac := f.toNat % 2 ^ 23
  let bits :=
    if exp = 255 then 2047 * 2 ^ 52 + frac * 2 ^ 29
    else if exp = 0 then
      if frac = 0 then 0
      else
        -- `frac * 2^-149` is `2^(k-149) * (frac / 2^k)` with `k` the position of its top bit
        let k := Nat.log2 frac
        (k + 1023 - 149) * 2 ^ 52 + (frac - 2 ^ k) * 2 ^ (52 - k)
    else (exp + 1023 - 127) * 2 ^ 52 + frac * 2 ^ 29
  UInt64.ofNat (sign * 2 ^ 63 + bits)

example : float64OfFloat32 0x3FC00000 = 0x3FF8000000000000 := by decide

end Go
