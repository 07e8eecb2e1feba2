import Mathlib.Data.List.Basic
import Mathlib.Tactic.IntervalCases

/-!
# UTF-8 as Go's `unicode/utf8` decodes it

`decodeRune` follows `utf8.DecodeRune`'s tables, and agrees with RFC 3629's syntax `Char`
(`decodeRune_cons_cases`, `decodeRune_char_append`). `pieces` reads a byte string as a Go
`for range` loop does.
-/

namespace Utf8

/-- `utf8.RuneError`, the replacement character U+FFFD. -/
def RuneError : Nat := 0xFFFD

/-- `utf8.RuneSelf`: a byte below it is a rune of its own. -/
def RuneSelf : Nat := 0x80

/-- The `first` and `acceptRanges` tables of `unicode/utf8`, for a byte that may start a
sequence of several bytes: the length of that sequence and the bounds of its second byte.
`none` for ASCII and for bytes that start no sequence. -/
def acceptRange (b : UInt8) : Option (Nat × Nat × Nat) :=
  if b.toNat < 0xC2 then none
  else if b.toNat ≤ 0xDF then some (2, 0x80, 0xBF)
  else if b.toNat = 0xE0 then some (3, 0xA0, 0xBF)
  else if b.toNat ≤ 0xEC then some (3, 0x80, 0xBF)
  else if b.toNat = 0xED then some (3, 0x80, 0x9F)
  else if b.toNat ≤ 0xEF then some (3, 0x80, 0xBF)
  else if b.toNat = 0xF0 then some (4, 0x90, 0xBF)
  else if b.toNat ≤ 0xF3 then some (4, 0x80, 0xBF)
  else if b.toNat = 0xF4 then some (4, 0x80, 0x8F)
  else none

/-- A continuation byte lies in `%x80-BF` (`locb`, `hicb`). -/
def IsCont (b : UInt8) : Prop := 0x80 ≤ b.toNat ∧ b.toNat ≤ 0xBF

instance (b : UInt8) : Decidable (IsCont b) := inferInstanceAs (Decidable (_ ∧ _))

/-- `utf8.DecodeRune`: the first rune of `p` and its width, `(RuneError, 1)` when `p` does
not start with a valid encoding and `(RuneError, 0)` when `p` is empty. -/
def decodeRune : List UInt8 → Nat × Nat
  | [] => (RuneError, 0)
  | p0 :: rest =>
    match acceptRange p0 with
    | none => if p0.toNat < RuneSelf then (p0.toNat, 1) else (RuneError, 1)
    | some (sz, lo, hi) =>
      if rest.length + 1 < sz then (RuneError, 1) else
      match rest with
      | [] => (RuneError, 1)
      | b1 :: rest =>
        if b1.toNat < lo ∨ hi < b1.toNat then (RuneError, 1)
        else if sz ≤ 2 then ((p0.toNat &&& 0x1F) <<< 6 ||| (b1.toNat &&& 0x3F), 2) else
        match rest with
        | [] => (RuneError, 1)
        | b2 :: rest =>
          if ¬ IsCont b2 then (RuneError, 1)
          else if sz ≤ 3 then
            ((p0.toNat &&& 0x0F) <<< 12 ||| (b1.toNat &&& 0x3F) <<< 6 ||| (b2.toNat &&& 0x3F), 3)
          else
          match rest with
          | [] => (RuneError, 1)
          | b3 :: _ =>
            if ¬ IsCont b3 then (RuneError, 1)
            else ((p0.toNat &&& 0x07) <<< 18 ||| (b1.toNat &&& 0x3F) <<< 12 |||
              (b2.toNat &&& 0x3F) <<< 6 ||| (b3.toNat &&& 0x3F), 4)

example : decodeRune [0xE2, 0x82, 0xAC, 0x41] = (0x20AC, 3) := by decide
example : decodeRune [0xED, 0xA0, 0x80] = (RuneError, 1) := by decide

/-- `UTF8-char` of RFC 3629 §4: one to four bytes, by the ranges of the grammar. -/
inductive Char : List UInt8 → Prop
  /-- `%x00-7F` -/
  | ascii {a : UInt8} : a.toNat < 0x80 → Char [a]
  /-- `%xC2-DF UTF8-tail` -/
  | two {a b : UInt8} : 0xC2 ≤ a.toNat → a.toNat ≤ 0xDF → IsCont b → Char [a, b]
  /-- `%xE0 %xA0-BF UTF8-tail` -/
  | threeE0 {a b c : UInt8} : a.toNat = 0xE0 → 0xA0 ≤ b.toNat → b.toNat ≤ 0xBF → IsCont c →
      Char [a, b, c]
  /-- `%xE1-EC 2( UTF8-tail )` and `%xEE-EF 2( UTF8-tail )` -/
  | three {a b c : UInt8} :
      (0xE1 ≤ a.toNat ∧ a.toNat ≤ 0xEC ∨ 0xEE ≤ a.toNat ∧ a.toNat ≤ 0xEF) →
      IsCont b → IsCont c → Char [a, b, c]
  /-- `%xED %x80-9F UTF8-tail`, which leaves out the surrogates -/
  | threeED {a b c : UInt8} : a.toNat = 0xED → 0x80 ≤ b.toNat → b.toNat ≤ 0x9F → IsCont c →
      Char [a, b, c]
  /-- `%xF0 %x90-BF 2( UTF8-tail )` -/
  | fourF0 {a b c d : UInt8} : a.toNat = 0xF0 → 0x90 ≤ b.toNat → b.toNat ≤ 0xBF →
      IsCont c → IsCont d → Char [a, b, c, d]
  /-- `%xF1-F3 3( UTF8-tail )` -/
  | four {a b c d : UInt8} : 0xF1 ≤ a.toNat → a.toNat ≤ 0xF3 → IsCont b → IsCont c →
      IsCont d → Char [a, b, c, d]
  /-- `%xF4 %x80-8F 2( UTF8-tail )`, which stops at U+10FFFF -/
  | fourF4 {a b c d : UInt8} : a.toNat = 0xF4 → 0x80 ≤ b.toNat → b.toNat ≤ 0x8F →
      IsCont c → IsCont d → Char [a, b, c, d]

/-- `UTF8-octets = *( UTF8-char )`: well-formed UTF-8. -/
inductive Valid : List UInt8 → Prop
  | nil : Valid []
  | cons {c rest : List UInt8} : Char c → Valid rest → Valid (c ++ rest)

/-! ### The decoder against RFC 3629 -/

/-- The lengths and second-byte ranges the table gives, with the leading bytes they go with. -/
theorem acceptRange_eq_some {b : UInt8} {sz lo hi : Nat} (h : acceptRange b = some (sz, lo, hi)) :
    sz = 2 ∧ lo = 0x80 ∧ hi = 0xBF ∧ 0xC2 ≤ b.toNat ∧ b.toNat ≤ 0xDF ∨
    sz = 3 ∧ lo = 0xA0 ∧ hi = 0xBF ∧ b.toNat = 0xE0 ∨
    sz = 3 ∧ lo = 0x80 ∧ hi = 0xBF ∧
      (0xE1 ≤ b.toNat ∧ b.toNat ≤ 0xEC ∨ 0xEE ≤ b.toNat ∧ b.toNat ≤ 0xEF) ∨
    sz = 3 ∧ lo = 0x80 ∧ hi = 0x9F ∧ b.toNat = 0xED ∨
    sz = 4 ∧ lo = 0x90 ∧ hi = 0xBF ∧ b.toNat = 0xF0 ∨
    sz = 4 ∧ lo = 0x80 ∧ hi = 0xBF ∧ 0xF1 ≤ b.toNat ∧ b.toNat ≤ 0xF3 ∨
    sz = 4 ∧ lo = 0x80 ∧ hi = 0x8F ∧ b.toNat = 0xF4 := by
  -- walk down the table, one row at a time
  unfold acceptRange at h
  by_cases h1 : b.toNat < 0xC2
  · rw [if_pos h1] at h; cases h
  rw [if_neg h1] at h
  by_cases h2 : b.toNat ≤ 0xDF
  · rw [if_pos h2] at h; cases h
    exact .inl ⟨rfl, rfl, rfl, by omega, h2⟩
  rw [if_neg h2] at h
  by_cases h3 : b.toNat = 0xE0
  · rw [if_pos h3] at h; cases h
    exact .inr <| .inl ⟨rfl, rfl, rfl, h3⟩
  rw [if_neg h3] at h
  by_cases h4 : b.toNat ≤ 0xEC
  · rw [if_pos h4] at h; cases h
    exact .inr <| .inr <| .inl ⟨rfl, rfl, rfl, .inl ⟨by omega, h4⟩⟩
  rw [if_neg h4] at h
  by_cases h5 : b.toNat = 0xED
  · rw [if_pos h5] at h; cases h
    exact .inr <| .inr <| .inr <| .inl ⟨rfl, rfl, rfl, h5⟩
  rw [if_neg h5] at h
  by_cases h6 : b.toNat ≤ 0xEF
  · rw [if_pos h6] at h; cases h
    exact .inr <| .inr <| .inl ⟨rfl, rfl, rfl, .inr ⟨by omega, h6⟩⟩
  rw [if_neg h6] at h
  by_cases h7 : b.toNat = 0xF0
  · rw [if_pos h7] at h; cases h
    exact .inr <| .inr <| .inr <| .inr <| .inl ⟨rfl, rfl, rfl, h7⟩
  rw [if_neg h7] at h
  by_cases h8 : b.toNat ≤ 0xF3
  · rw [if_pos h8] at h; cases h
    exact .inr <| .inr <| .inr <| .inr <| .inr <| .inl ⟨rfl, rfl, rfl, by omega, h8⟩
  rw [if_neg h8] at h
  by_cases h9 : b.toNat = 0xF4
  · rw [if_pos h9] at h; cases h
    exact .inr <| .inr <| .inr <| .inr <| .inr <| .inr ⟨rfl, rfl, rfl, h9⟩
  rw [if_neg h9] at h; cases h

/-- A leading byte of a longer sequence decodes to the error of width one, or to a rune of the
table's length whose second byte is in the table's range and whose later bytes continue. -/
theorem decodeRune_multi {p0 : UInt8} {sz lo hi : Nat} (h : acceptRange p0 = some (sz, lo, hi))
    (rest : List UInt8) :
    decodeRune (p0 :: rest) = (RuneError, 1) ∨
    ∃ b1 bs t, rest = b1 :: bs ++ t ∧ bs.length + 2 = sz ∧ lo ≤ b1.toNat ∧ b1.toNat ≤ hi ∧
      (∀ b ∈ bs, IsCont b) ∧ (decodeRune (p0 :: rest)).2 = sz := by
  have hsz : 2 ≤ sz ∧ sz ≤ 4 := by
    rcases acceptRange_eq_some h with ⟨rfl, -⟩ | ⟨rfl, -⟩ | ⟨rfl, -⟩ | ⟨rfl, -⟩ | ⟨rfl, -⟩ |
      ⟨rfl, -⟩ | ⟨rfl, -⟩ <;> omega
  obtain ⟨h2, h4⟩ := hsz
  simp only [decodeRune, h]
  -- one case for each length the table allows; the decoder then reads that many bytes
  interval_cases sz
  · rcases rest with _ | ⟨b1, t⟩
    · exact .inl rfl
    · by_cases h1 : b1.toNat < lo ∨ hi < b1.toNat
      · exact .inl (by simp [h1])
      · exact .inr ⟨b1, [], t, rfl, rfl, by omega, by omega, by simp, by simp [h1, show ¬ t.length + 1 + 1 < 2 by omega]⟩
  · rcases rest with _ | ⟨b1, _ | ⟨b2, t⟩⟩
    · exact .inl rfl
    · exact .inl rfl
    · by_cases h1 : b1.toNat < lo ∨ hi < b1.toNat
      · exact .inl (by simp [h1])
      by_cases h2 : IsCont b2
      · exact .inr ⟨b1, [b2], t, rfl, rfl, by omega, by omega, by simpa using h2, by simp [h1, h2, show ¬ t.length + 1 + 1 + 1 < 3 by omega]⟩
      · exact .inl (by simp [h1, h2])
  · rcases rest with _ | ⟨b1, _ | ⟨b2, _ | ⟨b3, t⟩⟩⟩
    · exact .inl rfl
    · exact .inl rfl
    · exact .inl (by simp)
    · by_cases h1 : b1.toNat < lo ∨ hi < b1.toNat
      · exact .inl (by simp [h1])
      by_cases h2 : IsCont b2
      · by_cases h3 : IsCont b3
        · exact .inr ⟨b1, [b2, b3], t, rfl, rfl, by omega, by omega, by simp [h2, h3],
            by simp [h1, h2, h3, show ¬ t.length + 1 + 1 + 1 + 1 < 4 by omega]⟩
        · exact .inl (by simp [h1, h2, h3])
      · exact .inl (by simp [h1, h2])

/-- What one call of `decodeRune` can do on a nonempty input: take an ASCII byte as itself,
fail with the error of width one on a byte of `%x80-FF`, or read one RFC 3629 character of two
to four bytes. -/
theorem decodeRune_cons_cases (p0 : UInt8) (rest : List UInt8) :
    p0.toNat < RuneSelf ∧ decodeRune (p0 :: rest) = (p0.toNat, 1) ∨
    RuneSelf ≤ p0.toNat ∧ decodeRune (p0 :: rest) = (RuneError, 1) ∨
    RuneSelf ≤ p0.toNat ∧ 2 ≤ (decodeRune (p0 :: rest)).2 ∧
      (decodeRune (p0 :: rest)).2 ≤ rest.length + 1 ∧
      Char ((p0 :: rest).take (decodeRune (p0 :: rest)).2) := by
  rcases hacc : acceptRange p0 with _ | ⟨sz, lo, hi⟩
  · by_cases hp : p0.toNat < RuneSelf
    · exact .inl ⟨hp, by simp [decodeRune, hacc, hp]⟩
    · exact .inr <| .inl ⟨by omega, by simp [decodeRune, hacc, hp]⟩
  have hlead : RuneSelf ≤ p0.toNat := by
    rcases acceptRange_eq_some hacc with ⟨-, -, -, h, -⟩ | ⟨-, -, -, h⟩ | ⟨-, -, -, h | h⟩ |
      ⟨-, -, -, h⟩ | ⟨-, -, -, h⟩ | ⟨-, -, -, h, -⟩ | ⟨-, -, -, h⟩ <;> simp [RuneSelf] <;> omega
  rcases decodeRune_multi hacc rest with herr | ⟨b1, bs, t, rfl, hlen, hlo, hhi, hcont, hsize⟩
  · exact .inr <| .inl ⟨hlead, herr⟩
  refine .inr <| .inr ⟨hlead, by omega, by rw [hsize]; simp; omega, ?_⟩
  rw [hsize]
  -- the character is the leading byte, the second byte and the continuation bytes `bs`
  have htake : (p0 :: (b1 :: bs ++ t)).take sz = p0 :: b1 :: bs := by
    rw [← hlen]; simp
  rw [htake]
  rcases acceptRange_eq_some hacc with ⟨rfl, rfl, rfl, h1, h2⟩ | ⟨rfl, rfl, rfl, h1⟩ |
    ⟨rfl, rfl, rfl, h1⟩ | ⟨rfl, rfl, rfl, h1⟩ | ⟨rfl, rfl, rfl, h1⟩ | ⟨rfl, rfl, rfl, h1, h2⟩ |
    ⟨rfl, rfl, rfl, h1⟩
  · match bs, hlen with
    | [], _ => exact .two h1 h2 ⟨hlo, hhi⟩
  · match bs, hlen with
    | [c], _ => exact .threeE0 h1 hlo hhi (hcont c (by simp))
  · match bs, hlen with
    | [c], _ => exact .three h1 ⟨hlo, hhi⟩ (hcont c (by simp))
  · match bs, hlen with
    | [c], _ => exact .threeED h1 hlo hhi (hcont c (by simp))
  · match bs, hlen with
    | [c, d], _ => exact .fourF0 h1 hlo hhi (hcont c (by simp)) (hcont d (by simp))
  · match bs, hlen with
    | [c, d], _ => exact .four h1 h2 ⟨hlo, hhi⟩ (hcont c (by simp)) (hcont d (by simp))
  · match bs, hlen with
    | [c, d], _ => exact .fourF4 h1 hlo hhi (hcont c (by simp)) (hcont d (by simp))

/-- The decoder always advances on a nonempty input. -/
theorem decodeRune_size_pos {p : List UInt8} (h : p ≠ []) : 0 < (decodeRune p).2 := by
  obtain ⟨p0, rest, rfl⟩ := List.exists_cons_of_ne_nil h
  rcases decodeRune_cons_cases p0 rest with ⟨-, h1⟩ | ⟨-, h1⟩ | ⟨-, h2, -⟩
  · rw [h1]; exact Nat.one_pos
  · rw [h1]; exact Nat.one_pos
  · omega

/-- The rows of the table, read forwards. -/
theorem acceptRange_of_two {b : UInt8} (h1 : 0xC2 ≤ b.toNat) (h2 : b.toNat ≤ 0xDF) :
    acceptRange b = some (2, 0x80, 0xBF) := by
  unfold acceptRange; rw [if_neg (by omega), if_pos h2]

theorem acceptRange_of_threeE0 {b : UInt8} (h : b.toNat = 0xE0) :
    acceptRange b = some (3, 0xA0, 0xBF) := by
  unfold acceptRange; rw [if_neg (by omega), if_neg (by omega), if_pos h]

theorem acceptRange_of_three {b : UInt8}
    (h : 0xE1 ≤ b.toNat ∧ b.toNat ≤ 0xEC ∨ 0xEE ≤ b.toNat ∧ b.toNat ≤ 0xEF) :
    acceptRange b = some (3, 0x80, 0xBF) := by
  unfold acceptRange
  rcases h with ⟨h1, h2⟩ | ⟨h1, h2⟩
  · rw [if_neg (by omega), if_neg (by omega), if_neg (by omega), if_pos h2]
  · rw [if_neg (by omega), if_neg (by omega), if_neg (by omega), if_neg (by omega),
      if_neg (by omega), if_pos h2]

theorem acceptRange_of_threeED {b : UInt8} (h : b.toNat = 0xED) :
    acceptRange b = some (3, 0x80, 0x9F) := by
  unfold acceptRange
  rw [if_neg (by omega), if_neg (by omega), if_neg (by omega), if_neg (by omega), if_pos h]

theorem acceptRange_of_fourF0 {b : UInt8} (h : b.toNat = 0xF0) :
    acceptRange b = some (4, 0x90, 0xBF) := by
  unfold acceptRange
  rw [if_neg (by omega), if_neg (by omega), if_neg (by omega), if_neg (by omega),
    if_neg (by omega), if_neg (by omega), if_pos h]

theorem acceptRange_of_four {b : UInt8} (h1 : 0xF1 ≤ b.toNat) (h2 : b.toNat ≤ 0xF3) :
    acceptRange b = some (4, 0x80, 0xBF) := by
  unfold acceptRange
  rw [if_neg (by omega), if_neg (by omega), if_neg (by omega), if_neg (by omega),
    if_neg (by omega), if_neg (by omega), if_neg (by omega), if_pos h2]

theorem acceptRange_of_fourF4 {b : UInt8} (h : b.toNat = 0xF4) :
    acceptRange b = some (4, 0x80, 0x8F) := by
  unfold acceptRange
  rw [if_neg (by omega), if_neg (by omega), if_neg (by omega), if_neg (by omega),
    if_neg (by omega), if_neg (by omega), if_neg (by omega), if_neg (by omega), if_pos h]

/-- Every character of RFC 3629 longer than a byte decodes at its full width, whatever
follows it. -/
theorem decodeRune_char_append {c : List UInt8} (hc : Char c) (h2 : 2 ≤ c.length)
    (t : List UInt8) : (decodeRune (c ++ t)).2 = c.length := by
  cases hc with
  | ascii _ => simp at h2
  | @two a b ha ha' hb =>
    have hb' : ¬ (b.toNat < 0x80 ∨ 0xBF < b.toNat) := by unfold IsCont at hb; omega
    simp [decodeRune, acceptRange_of_two ha ha', hb', show ¬ t.length + 1 + 1 < 2 by omega]
  | @threeE0 a b c ha hb hb' hc =>
    have hb'' : ¬ (b.toNat < 0xA0 ∨ 0xBF < b.toNat) := by omega
    simp [decodeRune, acceptRange_of_threeE0 ha, hb'', hc,
      show ¬ t.length + 1 + 1 + 1 < 3 by omega]
  | @three a b c ha hb hc =>
    have hb' : ¬ (b.toNat < 0x80 ∨ 0xBF < b.toNat) := by unfold IsCont at hb; omega
    simp [decodeRune, acceptRange_of_three ha, hb', hc, show ¬ t.length + 1 + 1 + 1 < 3 by omega]
  | @threeED a b c ha hb hb' hc =>
    have hb'' : ¬ (b.toNat < 0x80 ∨ 0x9F < b.toNat) := by omega
    simp [decodeRune, acceptRange_of_threeED ha, hb'', hc,
      show ¬ t.length + 1 + 1 + 1 < 3 by omega]
  | @fourF0 a b c d ha hb hb' hc hd =>
    have hb'' : ¬ (b.toNat < 0x90 ∨ 0xBF < b.toNat) := by omega
    simp [decodeRune, acceptRange_of_fourF0 ha, hb'', hc, hd,
      show ¬ t.length + 1 + 1 + 1 + 1 < 4 by omega]
  | @four a b c d ha ha' hb hc hd =>
    have hb' : ¬ (b.toNat < 0x80 ∨ 0xBF < b.toNat) := by unfold IsCont at hb; omega
    simp [decodeRune, acceptRange_of_four ha ha', hb', hc, hd,
      show ¬ t.length + 1 + 1 + 1 + 1 < 4 by omega]
  | @fourF4 a b c d ha hb hb' hc hd =>
    have hb'' : ¬ (b.toNat < 0x80 ∨ 0x8F < b.toNat) := by omega
    simp [decodeRune, acceptRange_of_fourF4 ha, hb'', hc, hd,
      show ¬ t.length + 1 + 1 + 1 + 1 < 4 by omega]

/-! ### Reading a byte string rune by rune -/

/-- What one step of a Go `for range` loop over a byte string covers: an ASCII byte, a
character of two to four bytes, or a byte at which decoding fails. Each piece keeps what the
decoder established about its bytes. -/
inductive Piece
  | ascii (b : UInt8) (h : b.toNat < RuneSelf)
  | rune (bs : List UInt8) (h : Char bs) (hlen : 2 ≤ bs.length)
  | invalid (b : UInt8) (h : RuneSelf ≤ b.toNat)

/-- The bytes a piece covers. -/
def Piece.bytes : Piece → List UInt8
  | .ascii b _ => [b]
  | .rune bs _ _ => bs
  | .invalid b _ => [b]

/-- The bytes of a piece once an invalid byte is replaced by the encoding of U+FFFD. -/
def Piece.replaced : Piece → List UInt8
  | .invalid _ _ => [0xEF, 0xBF, 0xBD]
  | p => p.bytes

theorem decodeRune_size_le_of_two_le {p0 : UInt8} {rest : List UInt8}
    (h : 2 ≤ (decodeRune (p0 :: rest)).2) :
    RuneSelf ≤ p0.toNat ∧ (decodeRune (p0 :: rest)).2 ≤ rest.length + 1 ∧
      Char ((p0 :: rest).take (decodeRune (p0 :: rest)).2) := by
  rcases decodeRune_cons_cases p0 rest with ⟨-, h1⟩ | ⟨-, h1⟩ | ⟨hlead, -, hle, hc⟩
  · rw [h1] at h; simp at h
  · rw [h1] at h; simp at h
  · exact ⟨hlead, hle, hc⟩

/-- The pieces of a byte string, in the order a `for range` loop visits them. -/
@[semireducible] def pieces : List UInt8 → List Piece
  | [] => []
  | b :: t =>
    if hb : b.toNat < RuneSelf then .ascii b hb :: pieces t
    else if hv : 2 ≤ (decodeRune (b :: t)).2 then
      .rune ((b :: t).take (decodeRune (b :: t)).2) (decodeRune_size_le_of_two_le hv).2.2
        (by have := (decodeRune_size_le_of_two_le hv).2.1; simp; omega) ::
        pieces ((b :: t).drop (decodeRune (b :: t)).2)
    else .invalid b (by omega) :: pieces t
termination_by s => s.length
decreasing_by
  all_goals simp only [List.length_cons, List.length_drop]
  all_goals omega

/-- `s` with every byte at which decoding fails replaced by U+FFFD, every rune kept. -/
def replaceInvalid (s : List UInt8) : List UInt8 := (pieces s).flatMap Piece.replaced

example : replaceInvalid [0x61, 0xC3, 0xA9, 0xFF, 0xED, 0xA0, 0x80] =
    [0x61, 0xC3, 0xA9, 0xEF, 0xBF, 0xBD, 0xEF, 0xBF, 0xBD, 0xEF, 0xBF, 0xBD, 0xEF, 0xBF, 0xBD] := by
  decide

theorem Char.lead {a : UInt8} {rest : List UInt8} (hc : Char (a :: rest)) (h : rest ≠ []) :
    RuneSelf ≤ a.toNat := by
  unfold RuneSelf
  cases hc with
  | ascii => exact absurd rfl h
  | two ha => omega
  | threeE0 ha => omega
  | three ha => omega
  | threeED ha => omega
  | fourF0 ha => omega
  | four ha => omega
  | fourF4 ha => omega

/-- Every byte of a character of two or more bytes is outside ASCII. -/
theorem Char.not_ascii {c : List UInt8} (hc : Char c) (hlen : 2 ≤ c.length) :
    ∀ b ∈ c, RuneSelf ≤ b.toNat := by
  intro x hx
  unfold RuneSelf
  cases hc with
  | ascii => simp at hlen
  | _ =>
    simp only [IsCont, List.mem_cons, List.not_mem_nil, or_false] at *
    rcases hx with rfl | rfl | rfl | rfl <;> omega

theorem pieces_ascii {b : UInt8} (hb : b.toNat < RuneSelf) (t : List UInt8) :
    pieces (b :: t) = .ascii b hb :: pieces t := by
  rw [pieces, dif_pos hb]

theorem pieces_invalid {b : UInt8} {t : List UInt8} (hb : RuneSelf ≤ b.toNat)
    (hv : ¬ 2 ≤ (decodeRune (b :: t)).2) : pieces (b :: t) = .invalid b hb :: pieces t := by
  rw [pieces, dif_neg (by omega), dif_neg hv]

theorem pieces_rune {b : UInt8} {t : List UInt8} (hb : RuneSelf ≤ b.toNat)
    (hv : 2 ≤ (decodeRune (b :: t)).2) :
    ∃ hc hlen, pieces (b :: t) = .rune ((b :: t).take (decodeRune (b :: t)).2) hc hlen ::
      pieces ((b :: t).drop (decodeRune (b :: t)).2) := by
  rw [pieces, dif_neg (by omega), dif_pos hv]
  exact ⟨_, _, rfl⟩

/-- A character of two or more bytes is one piece, whatever follows it. -/
theorem pieces_char_append {c : List UInt8} (hc : Char c) (hlen : 2 ≤ c.length)
    (t : List UInt8) : pieces (c ++ t) = .rune c hc hlen :: pieces t := by
  obtain ⟨a, rest, rfl⟩ : ∃ a rest, c = a :: rest := by
    cases c with
    | nil => simp at hlen
    | cons a rest => exact ⟨a, rest, rfl⟩
  have hsize := decodeRune_char_append hc hlen t
  have hlead := hc.lead (by rintro rfl; simp at hlen)
  simp only [List.cons_append] at hsize ⊢
  rw [pieces, dif_neg (by omega), dif_pos (by rw [hsize]; exact hlen)]
  have htake : (a :: (rest ++ t)).take (decodeRune (a :: (rest ++ t))).2 = a :: rest := by
    rw [hsize, ← List.cons_append, List.take_left]
  have hdrop : (a :: (rest ++ t)).drop (decodeRune (a :: (rest ++ t))).2 = t := by
    rw [hsize, ← List.cons_append, List.drop_left]
  congr 1
  · simp only [htake]
  · rw [hdrop]

/-- Well-formed UTF-8 is kept as it is. -/
theorem replaceInvalid_of_valid {s : List UInt8} (hs : Valid s) : replaceInvalid s = s := by
  induction hs with
  | nil => simp [replaceInvalid, pieces]
  | @cons c rest hc _ ih =>
    unfold replaceInvalid at ih ⊢
    by_cases hlen : 2 ≤ c.length
    · rw [pieces_char_append hc hlen]
      simp [Piece.replaced, Piece.bytes, ih]
    · obtain ⟨a, ha, rfl⟩ : ∃ a, a.toNat < RuneSelf ∧ c = [a] := by
        cases hc with
        | ascii ha => exact ⟨_, ha, rfl⟩
        | _ => simp at hlen
      rw [List.singleton_append, pieces_ascii ha]
      simp [Piece.replaced, Piece.bytes, ih]

end Utf8
