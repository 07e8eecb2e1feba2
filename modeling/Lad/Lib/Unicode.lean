import Lad.Lib.JsonString

/-!
# Lower-casing in Go's `unicode`, `bytes` and `strings`

Past ASCII, `unicode.ToLower` is a table, a parameter here (`lowerCase`). `bytes.ToLower` and
`strings.ToLower` lower only `A` to `Z` on ASCII input (`ToLower_of_ascii`), and otherwise map
every rune through the table, so a rune past ASCII may lower to an ASCII letter.
-/

namespace Utf8

/-- The rune a step of a `for range` loop reads: `RuneError` where decoding fails. -/
def Piece.toRune : Piece → Nat
  | .ascii b _ => b.toNat
  | .rune bs _ _ => (decodeRune bs).1
  | .invalid _ _ => RuneError

end Utf8

namespace Go

open Utf8

def MaxASCII : Nat := 0x7F

/-- The ASCII lower-casing of a byte: `A` to `Z` move to `a` to `z`, every other byte stays. -/
def toLowerASCII (c : UInt8) : UInt8 :=
  if 0x41 ≤ c.toNat ∧ c.toNat ≤ 0x5A then c + 0x20 else c

/-- `unicode.ToLower(r)`, with `lowerCase r` for `unicode.To(unicode.LowerCase, r)`, the simple
lower-case mapping of Go's case tables, which is consulted past ASCII only. -/
def unicode.ToLower (lowerCase : Nat → Nat) (r : Nat) : Nat :=
  if r ≤ MaxASCII then
    if 0x41 ≤ r ∧ r ≤ 0x5A then r + 0x20 else r
  else lowerCase r

/-- `bytes.Map(mapping, s)`: the encoding of each rune of `s`, mapped. A mapping to a negative
value drops the rune in Go; runes are natural numbers here, so none is dropped. `strings.Map`
gives the same bytes: its fast path returns `s` only where every rune maps to itself and no
byte fails to decode. -/
def bytes.Map (mapping : Nat → Nat) (s : List UInt8) : List UInt8 :=
  (pieces s).flatMap fun p => Json.encodeRune (mapping p.toRune)

/-- `bytes.ToLower(s)`: byte by byte on ASCII input (a copy when there is no upper-case letter),
else `Map(unicode.ToLower, s)`. -/
def bytes.ToLower (lowerCase : Nat → Nat) (s : List UInt8) : List UInt8 :=
  if s.all (·.toNat < RuneSelf) then s.map toLowerASCII
  else bytes.Map (unicode.ToLower lowerCase) s

/-- `strings.ToLower(s)`, which has the fast path of `bytes.ToLower` and maps the other strings
by `strings.Map`, to the same bytes. -/
def strings.ToLower (lowerCase : Nat → Nat) (s : List UInt8) : List UInt8 :=
  bytes.ToLower lowerCase s

/-! ### Equations -/

theorem encodeRune_ne_nil (r : Nat) : Json.encodeRune r ≠ [] := by
  unfold Json.encodeRune
  split_ifs <;> simp

@[simp] theorem bytes.Map_nil (f : Nat → Nat) : bytes.Map f [] = [] := by
  simp [bytes.Map, pieces]

/-- An ASCII byte is read as itself. -/
theorem bytes.Map_ascii_cons (f : Nat → Nat) {b : UInt8} (hb : b.toNat < RuneSelf)
    (t : List UInt8) :
    bytes.Map f (b :: t) = Json.encodeRune (f b.toNat) ++ bytes.Map f t := by
  simp [bytes.Map, pieces_ascii hb, Piece.toRune]

/-- A character of two or more bytes is read as the rune it encodes. -/
theorem bytes.Map_char_append (f : Nat → Nat) {c : List UInt8} (hc : Char c)
    (hlen : 2 ≤ c.length) (t : List UInt8) :
    bytes.Map f (c ++ t) = Json.encodeRune (f (decodeRune c).1) ++ bytes.Map f t := by
  simp [bytes.Map, pieces_char_append hc hlen, Piece.toRune]

/-- Every step writes something, so only the empty string maps to the empty string. -/
theorem bytes.Map_ne_nil (f : Nat → Nat) {s : List UInt8} (hs : s ≠ []) : bytes.Map f s ≠ [] := by
  obtain ⟨b, t, rfl⟩ := List.exists_cons_of_ne_nil hs
  have hcons : ∃ p ps, pieces (b :: t) = p :: ps := by
    rw [pieces]
    split_ifs <;> exact ⟨_, _, rfl⟩
  obtain ⟨p, ps, hp⟩ := hcons
  simp [bytes.Map, hp, encodeRune_ne_nil]

/-- On ASCII input, lower-casing is byte by byte. -/
theorem bytes.ToLower_of_ascii (lowerCase : Nat → Nat) {s : List UInt8}
    (hs : ∀ b ∈ s, b.toNat < RuneSelf) : bytes.ToLower lowerCase s = s.map toLowerASCII := by
  rw [bytes.ToLower, if_pos (List.all_eq_true.2 fun b hb => decide_eq_true (hs b hb))]

theorem bytes.ToLower_ne_nil (lowerCase : Nat → Nat) {s : List UInt8} (hs : s ≠ []) :
    bytes.ToLower lowerCase s ≠ [] := by
  unfold bytes.ToLower
  split
  · simpa using hs
  · exact bytes.Map_ne_nil _ hs

theorem toLowerASCII_toNat (c : UInt8) :
    (toLowerASCII c).toNat = if 0x41 ≤ c.toNat ∧ c.toNat ≤ 0x5A then c.toNat + 0x20 else c.toNat := by
  unfold toLowerASCII
  split_ifs with h
  · rw [UInt8.toNat_add]
    simp only [UInt8.reduceToNat]
    omega
  · rfl

end Go
