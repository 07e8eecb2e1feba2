import Lad.Lib.Utf8

/-!
# JSON string literals

The body of a JSON string (RFC 8259 §7), decoded as `encoding/json` decodes it. `parseString`
fails on raw control characters and on bytes that do not decode, where Go's decoder would
substitute U+FFFD; on well-formed input the two agree.
-/

namespace Json

open Utf8

/-- `utf8.EncodeRune`: the UTF-8 bytes of a code point, those of U+FFFD for a surrogate or a
value past U+10FFFF. -/
def encodeRune (r : Nat) : List UInt8 :=
  if r < 0x80 then [r.toUInt8]
  else if r < 0x800 then [(0xC0 ||| r >>> 6).toUInt8, (0x80 ||| r &&& 0x3F).toUInt8]
  else if 0xD800 ≤ r ∧ r ≤ 0xDFFF ∨ 0x10FFFF < r then [0xEF, 0xBF, 0xBD]
  else if r < 0x10000 then
    [(0xE0 ||| r >>> 12).toUInt8, (0x80 ||| r >>> 6 &&& 0x3F).toUInt8,
      (0x80 ||| r &&& 0x3F).toUInt8]
  else
    [(0xF0 ||| r >>> 18).toUInt8, (0x80 ||| r >>> 12 &&& 0x3F).toUInt8,
      (0x80 ||| r >>> 6 &&& 0x3F).toUInt8, (0x80 ||| r &&& 0x3F).toUInt8]

/-- The value of a hexadecimal digit, of either case. -/
def hexDigit (c : UInt8) : Option Nat :=
  if 0x30 ≤ c.toNat ∧ c.toNat ≤ 0x39 then some (c.toNat - 0x30)
  else if 0x61 ≤ c.toNat ∧ c.toNat ≤ 0x66 then some (c.toNat - 0x61 + 10)
  else if 0x41 ≤ c.toNat ∧ c.toNat ≤ 0x46 then some (c.toNat - 0x41 + 10)
  else none

/-- `getu4`: the code unit of a `\uXXXX` escape at the front of `s`. -/
def getu4 (s : List UInt8) : Option Nat :=
  match s with
  | 0x5C :: 0x75 :: a :: b :: c :: d :: _ => do
    let a ← hexDigit a
    let b ← hexDigit b
    let c ← hexDigit c
    let d ← hexDigit d
    pure (((a * 16 + b) * 16 + c) * 16 + d)
  | _ => none

def IsSurrogate (r : Nat) : Prop := 0xD800 ≤ r ∧ r < 0xE000

instance (r : Nat) : Decidable (IsSurrogate r) := inferInstanceAs (Decidable (_ ∧ _))

/-- `utf16.DecodeRune`: the code point of a surrogate pair, U+FFFD for anything else. -/
def utf16DecodeRune (r1 r2 : Nat) : Nat :=
  if 0xD800 ≤ r1 ∧ r1 < 0xDC00 ∧ 0xDC00 ≤ r2 ∧ r2 < 0xE000 then
    ((r1 - 0xD800) <<< 10 ||| (r2 - 0xDC00)) + 0x10000
  else RuneError

/-- The byte a one-letter escape `\e` stands for. -/
def unescape (e : UInt8) : Option UInt8 :=
  if e = 0x22 ∨ e = 0x5C ∨ e = 0x2F then some e
  else if e = 0x62 then some 0x08
  else if e = 0x66 then some 0x0C
  else if e = 0x6E then some 0x0A
  else if e = 0x72 then some 0x0D
  else if e = 0x74 then some 0x09
  else none

/-- Put decoded bytes in front of what the rest of a string decodes to. -/
def prependDecoded (d : List UInt8) :
    Option (List UInt8 × List UInt8) → Option (List UInt8 × List UInt8)
  | some (x, r) => some (d ++ x, r)
  | none => none

@[simp] theorem prependDecoded_some (d x r : List UInt8) :
    prependDecoded d (some (x, r)) = some (d ++ x, r) := rfl

@[simp] theorem prependDecoded_none (d : List UInt8) : prependDecoded d none = none := rfl

/-- The body of a string literal after its opening quotation mark: the decoded bytes and what
follows the closing quotation mark, or `none` when the body is not a valid JSON string. -/
@[semireducible] def parseString : List UInt8 → Option (List UInt8 × List UInt8)
  | [] => none
  | c :: rest =>
    if c = 0x22 then some ([], rest)
    else if c = 0x5C then
      match _hr : rest with
      | [] => none
      | e :: rest' =>
        match unescape e with
        | some v => prependDecoded [v] (parseString rest')
        | none =>
          if e = 0x75 then
            match getu4 (c :: rest) with
            | none => none
            | some rr =>
              let after := (c :: rest).drop 6
              if IsSurrogate rr then
                match getu4 after with
                | some rr1 =>
                  if utf16DecodeRune rr rr1 ≠ RuneError then
                    prependDecoded (encodeRune (utf16DecodeRune rr rr1)) (parseString (after.drop 6))
                  else prependDecoded (encodeRune RuneError) (parseString after)
                | none => prependDecoded (encodeRune RuneError) (parseString after)
              else prependDecoded (encodeRune rr) (parseString after)
          else none
    else if c.toNat < 0x20 then none
    else if c.toNat < RuneSelf then prependDecoded [c] (parseString rest)
    else if 2 ≤ (decodeRune (c :: rest)).2 then
      prependDecoded ((c :: rest).take (decodeRune (c :: rest)).2)
        (parseString ((c :: rest).drop (decodeRune (c :: rest)).2))
    else none
termination_by s => s.length
decreasing_by
  all_goals first
    | (simp only [_hr, List.length_cons, List.length_drop]; omega)
    | (simp only [List.length_cons, List.length_drop]; omega)

example : parseString [0x61, 0x5C, 0x6E, 0x5C, 0x75, 0x30, 0x30, 0x31, 0x66, 0x22, 0x7D] =
    some ([0x61, 0x0A, 0x1F], [0x7D]) := by decide

/-! ### One step of the decoder -/

theorem parseString_quote (rest : List UInt8) : parseString (0x22 :: rest) = some ([], rest) := by
  rw [parseString.eq_def]; rfl

/-- A byte that needs no escape is copied. -/
theorem parseString_unescaped {c : UInt8} (hlo : 0x20 ≤ c.toNat) (hhi : c.toNat < RuneSelf)
    (hq : c ≠ 0x22) (hb : c ≠ 0x5C) (rest : List UInt8) :
    parseString (c :: rest) = prependDecoded [c] (parseString rest) := by
  rw [parseString.eq_def]
  simp only
  rw [if_neg hq, if_neg hb, if_neg (by omega), if_pos hhi]

/-- A one-letter escape is replaced by the byte it stands for. -/
theorem parseString_escape {e v : UInt8} (h : unescape e = some v) (rest : List UInt8) :
    parseString (0x5C :: e :: rest) = prependDecoded [v] (parseString rest) := by
  rw [parseString, if_neg (by decide), if_pos rfl]
  simp only [h]

/-- A `\uXXXX` escape of a code point that is not a surrogate is replaced by its UTF-8
encoding. -/
theorem parseString_u {a b c d : UInt8} {rr : Nat} (h : getu4 [0x5C, 0x75, a, b, c, d] = some rr)
    (hsur : ¬ IsSurrogate rr) (rest : List UInt8) :
    parseString (0x5C :: 0x75 :: a :: b :: c :: d :: rest) =
      prependDecoded (encodeRune rr) (parseString rest) := by
  have hget : getu4 (0x5C :: 0x75 :: a :: b :: c :: d :: rest) = some rr := by
    simpa only [getu4] using h
  rw [parseString, if_neg (by decide), if_pos rfl]
  simp only [show unescape 0x75 = none by decide, if_true, hget, hsur, if_false]
  rfl

/-- The bytes of a UTF-8 character of two or more bytes are copied. -/
theorem parseString_char {bs : List UInt8} (hc : Char bs) (hlen : 2 ≤ bs.length)
    (rest : List UInt8) : parseString (bs ++ rest) = prependDecoded bs (parseString rest) := by
  obtain ⟨a, t, rfl⟩ : ∃ a t, bs = a :: t := by
    cases bs with
    | nil => simp at hlen
    | cons a t => exact ⟨a, t, rfl⟩
  have hlead : 0x80 ≤ a.toNat := hc.lead (by rintro rfl; simp at hlen)
  have hsize := decodeRune_char_append hc hlen rest
  have hq : a ≠ 0x22 := by rintro rfl; simp at hlead
  have hb : a ≠ 0x5C := by rintro rfl; simp at hlead
  simp only [List.cons_append] at hsize ⊢
  rw [parseString.eq_def]
  simp only
  rw [if_neg hq, if_neg hb, if_neg (by omega), if_neg (by unfold RuneSelf; omega),
    if_pos (by rw [hsize]; exact hlen), hsize, ← List.cons_append, List.take_left, List.drop_left]

/-- A byte that stands for itself in a string literal: printable ASCII other than the quotation
mark and the backslash. -/
def Plain (c : UInt8) : Prop := 0x20 ≤ c.toNat ∧ c.toNat < RuneSelf ∧ c ≠ 0x22 ∧ c ≠ 0x5C

instance (c : UInt8) : Decidable (Plain c) := inferInstanceAs (Decidable (_ ∧ _))

/-- A body of plain bytes decodes to itself. -/
theorem parseString_plain {b : List UInt8} (hb : ∀ c ∈ b, Plain c) (rest : List UInt8) :
    parseString (b ++ 0x22 :: rest) = some (b, rest) := by
  induction b with
  | nil => exact parseString_quote rest
  | cons c b ih =>
    obtain ⟨hlo, hhi, hq, hbs⟩ := hb c (by simp)
    rw [List.cons_append, parseString_unescaped hlo hhi hq hbs,
      ih fun d hd => hb d (List.mem_cons_of_mem c hd)]
    simp

/-- A whole string literal, quotation marks included: its decoded bytes, or `none` unless the
text is exactly one JSON string. The decoder refuses an unescaped quotation mark or backslash
inside the literal and every raw byte below `0x20`. -/
def decodeStringLiteral : List UInt8 → Option (List UInt8)
  | 0x22 :: body =>
    match parseString body with
    | some (d, []) => some d
    | _ => none
  | _ => none

end Json
