import Lad.Buffer
import Lad.Lib.JsonString

/-!
# JSON escaping of strings

`safeAppendStringLike`, behind `safeAddString` and `safeAddByteString`, copies pending runs and
escapes the bytes JSON wants escaped and those where UTF-8 decoding fails. `escaped` states what
it writes piece by piece (`safeAppendStringLike_bs`), and the decoder reads that back as the
input with its invalid bytes replaced by U+FFFD (`parseString_escaped`).
-/

namespace Lad

open Utf8 Json

/-- What `safeAppendStringLike` uses of its type parameter, `string` or `[]byte`: the length,
the byte at an index and the slices `s[lo:hi]` and `s[lo:]`, each the one of the byte sequence
`toBytes`. -/
class StringLike (S : Type) where
  toBytes : S → List UInt8
  len : S → Nat
  byteAt : S → Nat → UInt8
  slice : S → Nat → Nat → S
  suffix : S → Nat → S
  len_eq (s : S) : len s = (toBytes s).length
  byteAt_eq (s : S) (i : Nat) : byteAt s i = (toBytes s).getD i 0
  toBytes_slice (s : S) (lo hi : Nat) :
    toBytes (slice s lo hi) = ((toBytes s).drop lo).take (hi - lo)
  toBytes_suffix (s : S) (lo : Nat) : toBytes (suffix s lo) = (toBytes s).drop lo

open StringLike

/-- A Go `string`. -/
instance : StringLike (List UInt8) where
  toBytes s := s
  len s := s.length
  byteAt s i := s.getD i 0
  slice s lo hi := (s.drop lo).take (hi - lo)
  suffix s lo := s.drop lo
  len_eq _ := rfl
  byteAt_eq _ _ := rfl
  toBytes_slice _ _ _ := rfl
  toBytes_suffix _ _ := rfl

/-- A Go `[]byte`. -/
instance : StringLike (Array UInt8) where
  toBytes a := a.toList
  len a := a.size
  byteAt a i := a.getD i 0
  slice a lo hi := a.extract lo hi
  suffix a lo := a.extract lo a.size
  len_eq a := by simp
  byteAt_eq a i := by simp [Array.getD_eq_getD_getElem?, List.getD_eq_getElem?_getD]
  toBytes_slice a lo hi := by simp [List.take_drop]
  toBytes_suffix a lo := by
    rw [Array.toList_extract, List.extract_eq_take_drop, List.take_of_length_le (by simp)]

/-- A rune decoder of the kind `safeAppendStringLike` takes: a rune and its width, with a width
that is never zero on a nonempty input. -/
structure RuneDecoder (S : Type) [StringLike S] where
  decode : S → Nat × Nat
  size_pos (s : S) : 0 < len s → 0 < (decode s).2

def utf8DecodeRuneInString : RuneDecoder (List UInt8) :=
  ⟨decodeRune, fun _ h => decodeRune_size_pos (List.ne_nil_of_length_pos h)⟩

/-- `utf8.DecodeRune`, on a `[]byte`. -/
def utf8DecodeRune : RuneDecoder (Array UInt8) :=
  ⟨fun p => decodeRune p.toList,
    fun p h => decodeRune_size_pos (List.ne_nil_of_length_pos ((len_eq p).symm ▸ h))⟩

/-- `_hex`: `0123456789abcdef`. -/
def hexDigits : List UInt8 := ascii "0123456789abcdef"

/-- What the `switch` of `safeAppendStringLike` writes for an ASCII byte that JSON wants
escaped: `\\`, `\"`, `\n`, `\r`, `\t`, and `\u00XX` for the other control bytes. -/
def escapeByte (buf : Buffer) (c : UInt8) : Buffer :=
  if c = 0x5C ∨ c = 0x22 then (buf.appendByte 0x5C).appendByte c
  else if c = 0x0A then (buf.appendByte 0x5C).appendByte 0x6E
  else if c = 0x0D then (buf.appendByte 0x5C).appendByte 0x72
  else if c = 0x09 then (buf.appendByte 0x5C).appendByte 0x74
  else
    ((buf.appendString (ascii "\\u00")).appendByte (hexDigits.getD (c.toNat >>> 4) 0)).appendByte
      (hexDigits.getD (c.toNat &&& 0xF) 0)

@[simp] theorem ascii_u00 : ascii "\\u00" = [0x5C, 0x75, 0x30, 0x30] := rfl

@[simp] theorem ascii_ufffd : ascii "\\ufffd" = [0x5C, 0x75, 0x66, 0x66, 0x66, 0x64] := rfl

section Loop

variable {S : Type} [StringLike S]

theorem len_suffix (s : S) (i : Nat) : len (suffix s i) = len s - i := by
  rw [len_eq, toBytes_suffix, List.length_drop, len_eq]

/-- The loop of `safeAppendStringLike` at index `i`, with `s[last:i]` not yet copied. -/
def safeAppendStringLike.loop (appendTo : Buffer → S → Buffer) (decodeRune : RuneDecoder S)
    (s : S) (buf : Buffer) (last i : Nat) : Buffer :=
  if i < len s then
    if RuneSelf ≤ (byteAt s i).toNat then
      -- a byte that may start a multi-byte rune is decoded before it is judged
      if (decodeRune.decode (suffix s i)).1 ≠ RuneError ∨ (decodeRune.decode (suffix s i)).2 ≠ 1
      then safeAppendStringLike.loop appendTo decodeRune s buf last
        (i + (decodeRune.decode (suffix s i)).2)
      else safeAppendStringLike.loop appendTo decodeRune s
        ((appendTo buf (slice s last i)).appendString (ascii "\\ufffd")) (i + 1) (i + 1)
    else if 0x20 ≤ (byteAt s i).toNat ∧ byteAt s i ≠ 0x5C ∧ byteAt s i ≠ 0x22 then
      safeAppendStringLike.loop appendTo decodeRune s buf last (i + 1)
    else safeAppendStringLike.loop appendTo decodeRune s
      (escapeByte (appendTo buf (slice s last i)) (byteAt s i)) (i + 1) (i + 1)
  else appendTo buf (suffix s last)
termination_by len s - i
decreasing_by
  all_goals try omega
  have := decodeRune.size_pos (suffix s i) (by rw [len_suffix]; omega)
  omega

/-- `safeAppendStringLike`: append `s` to `buf`, escaped for the inside of a JSON string. -/
def safeAppendStringLike (appendTo : Buffer → S → Buffer) (decodeRune : RuneDecoder S)
    (buf : Buffer) (s : S) : Buffer :=
  safeAppendStringLike.loop appendTo decodeRune s buf 0 0

end Loop

/-- `jsonEncoder.safeAddString`, on the encoder's buffer. -/
def safeAddString (buf : Buffer) (s : List UInt8) : Buffer :=
  safeAppendStringLike Buffer.appendString utf8DecodeRuneInString buf s

/-- `jsonEncoder.safeAddByteString`, on the encoder's buffer. -/
def safeAddByteString (buf : Buffer) (s : Array UInt8) : Buffer :=
  safeAppendStringLike Buffer.appendBytes utf8DecodeRune buf s

/-! ### What the loop writes -/

/-- The bytes `safeAppendStringLike` writes for one piece of its input. -/
def escapePiece : Piece → List UInt8
  | .ascii b _ => if 0x20 ≤ b.toNat ∧ b ≠ 0x5C ∧ b ≠ 0x22 then [b] else (escapeByte ⟨[]⟩ b).bs
  | .rune bs _ _ => bs
  | .invalid _ _ => ascii "\\ufffd"

/-- The escaped form of a byte string, piece by piece. -/
def escaped (s : List UInt8) : List UInt8 := (pieces s).flatMap escapePiece

theorem escapeByte_bs (buf : Buffer) (c : UInt8) :
    (escapeByte buf c).bs = buf.bs ++ (escapeByte ⟨[]⟩ c).bs := by
  unfold escapeByte
  split_ifs <;> simp

theorem escaped_nil : escaped [] = [] := by
  simp [escaped, pieces]

/-- The four ways the front of a string is escaped, as the loop tells them apart. -/
theorem escaped_safe {c : UInt8} (hc : c.toNat < RuneSelf)
    (hsafe : 0x20 ≤ c.toNat ∧ c ≠ 0x5C ∧ c ≠ 0x22) (t : List UInt8) :
    escaped (c :: t) = c :: escaped t := by
  simp [escaped, pieces_ascii hc, escapePiece, hsafe]

theorem escaped_special {c : UInt8} (hc : c.toNat < RuneSelf)
    (hsafe : ¬ (0x20 ≤ c.toNat ∧ c ≠ 0x5C ∧ c ≠ 0x22)) (t : List UInt8) :
    escaped (c :: t) = (escapeByte ⟨[]⟩ c).bs ++ escaped t := by
  simp only [escaped, pieces_ascii hc, List.flatMap_cons, escapePiece, if_neg hsafe]

theorem escaped_rune {c : UInt8} {t : List UInt8} (hc : RuneSelf ≤ c.toNat)
    (hv : 2 ≤ (decodeRune (c :: t)).2) :
    escaped (c :: t) = (c :: t).take (decodeRune (c :: t)).2 ++
      escaped ((c :: t).drop (decodeRune (c :: t)).2) := by
  obtain ⟨hch, hlen, h⟩ := pieces_rune hc hv
  simp only [escaped, h, List.flatMap_cons, escapePiece]

theorem escaped_invalid {c : UInt8} {t : List UInt8} (hc : RuneSelf ≤ c.toNat)
    (hv : ¬ 2 ≤ (decodeRune (c :: t)).2) :
    escaped (c :: t) = ascii "\\ufffd" ++ escaped t := by
  simp only [escaped, pieces_invalid hc hv, List.flatMap_cons, escapePiece]

section Loop

variable {S : Type} [StringLike S]

/-- The loop's invariant: the bytes `s[last:i]` it has passed over without copying are the
start of the escaped form of `s[last:]`, and the rest of it is the escaped form of `s[i:]`. -/
def Pending (s : S) (last i : Nat) : Prop :=
  last ≤ i ∧ i ≤ len s ∧
    escaped ((toBytes s).drop last) =
      ((toBytes s).drop last).take (i - last) ++ escaped ((toBytes s).drop i)

theorem pending_start (s : S) (i : Nat) (hi : i ≤ len s) : Pending s i i :=
  ⟨le_refl i, hi, by simp⟩

/-- Passing over `n` bytes that the escaped form keeps as they are. -/
theorem pending_skip {s : S} {last i n : Nat} (h : Pending s last i) (hn : i + n ≤ len s)
    (hkeep : escaped ((toBytes s).drop i) =
      ((toBytes s).drop i).take n ++ escaped (((toBytes s).drop i).drop n)) :
    Pending s last (i + n) := by
  obtain ⟨hli, -, hpend⟩ := h
  refine ⟨by omega, hn, ?_⟩
  rw [hpend, hkeep, List.drop_drop, ← List.append_assoc, show i + n - last = (i - last) + n by omega,
    List.take_add, List.drop_drop, show last + (i - last) = i by omega]

/-- The byte at `i` and the bytes after it. -/
theorem drop_eq_byteAt_cons {s : S} {i : Nat} (hi : i < len s) :
    (toBytes s).drop i = byteAt s i :: (toBytes s).drop (i + 1) := by
  rw [len_eq] at hi
  rw [List.drop_eq_getElem_cons hi, byteAt_eq, List.getD_eq_getElem?_getD, List.getElem?_eq_getElem hi]
  rfl

/-- The loop writes the escaped form of what it has not copied yet, whatever the string type,
as long as `appendTo` appends the bytes of its argument and `decodeRune` decodes them. -/
theorem safeAppendStringLike.loop_bs {appendTo : Buffer → S → Buffer}
    {decodeRune : RuneDecoder S} (happend : ∀ buf t, (appendTo buf t).bs = buf.bs ++ toBytes t)
    (hdecode : ∀ t, decodeRune.decode t = Utf8.decodeRune (toBytes t))
    (s : S) (buf : Buffer) (last i : Nat) (h : Pending s last i) :
    (safeAppendStringLike.loop appendTo decodeRune s buf last i).bs =
      buf.bs ++ escaped ((toBytes s).drop last) := by
  fun_induction safeAppendStringLike.loop appendTo decodeRune s buf last i with
  | case1 buf last i hi hself hvalid ih =>
    -- a valid rune of two or more bytes: passed over, to be copied later with the run
    have hdrop := drop_eq_byteAt_cons hi
    have hdec : decodeRune.decode (suffix s i) =
        Utf8.decodeRune (byteAt s i :: (toBytes s).drop (i + 1)) := by
      rw [hdecode, toBytes_suffix, hdrop]
    rw [hdec] at hvalid ih ⊢
    have hn : 2 ≤ (Utf8.decodeRune (byteAt s i :: (toBytes s).drop (i + 1))).2 ∧
        (Utf8.decodeRune (byteAt s i :: (toBytes s).drop (i + 1))).2 ≤
          ((toBytes s).drop (i + 1)).length + 1 := by
      rcases decodeRune_cons_cases (byteAt s i) ((toBytes s).drop (i + 1)) with
        ⟨h1, -⟩ | ⟨-, h1⟩ | ⟨-, h2, hle, -⟩
      · omega
      · rw [h1] at hvalid; simp at hvalid
      · exact ⟨h2, hle⟩
    apply ih
    apply pending_skip h
    · have := len_eq s
      simp only [List.length_drop] at hn
      omega
    · rw [hdrop]
      exact escaped_rune hself hn.1
  | case2 buf last i hi hself hvalid ih =>
    -- a byte where decoding fails: the run is copied, then the replacement escape
    have hdrop := drop_eq_byteAt_cons hi
    have hdec : decodeRune.decode (suffix s i) =
        Utf8.decodeRune (byteAt s i :: (toBytes s).drop (i + 1)) := by
      rw [hdecode, toBytes_suffix, hdrop]
    rw [hdec] at hvalid
    have hv : ¬ 2 ≤ (Utf8.decodeRune (byteAt s i :: (toBytes s).drop (i + 1))).2 := by
      simp only [ne_eq, not_or, not_not] at hvalid
      omega
    obtain ⟨-, -, hpend⟩ := h
    rw [ih (pending_start s (i + 1) (by omega)), Buffer.appendString_bs, happend, toBytes_slice,
      hpend, hdrop, escaped_invalid hself hv]
    simp
  | case3 buf last i hi hself hsafe ih =>
    -- an ASCII byte that needs no escape: passed over
    have hdrop := drop_eq_byteAt_cons hi
    apply ih
    apply pending_skip h (by omega)
    rw [hdrop, escaped_safe (by omega) hsafe]
    simp
  | case4 buf last i hi hself hsafe ih =>
    -- an ASCII byte that needs an escape: the run is copied, then the escape
    have hdrop := drop_eq_byteAt_cons hi
    obtain ⟨-, -, hpend⟩ := h
    rw [ih (pending_start s (i + 1) (by omega)), escapeByte_bs, happend, toBytes_slice,
      hpend, hdrop, escaped_special (by omega) hsafe]
    simp
  | case5 buf last i hi =>
    -- the end: what is pending is the rest of the string
    obtain ⟨hli, hil, hpend⟩ := h
    have hlen := len_eq s
    have hend : (toBytes s).drop i = [] := List.drop_eq_nil_of_le (by omega)
    rw [happend, toBytes_suffix, hpend, hend, escaped_nil, List.append_nil,
      List.take_of_length_le (by simp; omega)]

end Loop

section Loop

variable {S : Type} [StringLike S]

/-- `safeAppendStringLike` appends the escaped form of its argument's bytes. -/
theorem safeAppendStringLike_bs {appendTo : Buffer → S → Buffer} {decodeRune : RuneDecoder S}
    (happend : ∀ buf t, (appendTo buf t).bs = buf.bs ++ toBytes t)
    (hdecode : ∀ t, decodeRune.decode t = Utf8.decodeRune (toBytes t)) (buf : Buffer) (s : S) :
    (safeAppendStringLike appendTo decodeRune buf s).bs = buf.bs ++ escaped (toBytes s) := by
  simpa [safeAppendStringLike] using safeAppendStringLike.loop_bs happend hdecode s buf 0 0
    (pending_start s 0 (Nat.zero_le _))

end Loop

theorem safeAddString_bs (buf : Buffer) (s : List UInt8) :
    (safeAddString buf s).bs = buf.bs ++ escaped s :=
  safeAppendStringLike_bs (fun _ _ => rfl) (fun _ => rfl) buf s

theorem safeAddByteString_bs (buf : Buffer) (s : Array UInt8) :
    (safeAddByteString buf s).bs = buf.bs ++ escaped s.toList :=
  safeAppendStringLike_bs (fun _ _ => rfl) (fun _ => rfl) buf s

/-! ### Reading the escaped form back -/

/-- The `\u00XX` escape of a control byte names that byte. -/
theorem getu4_control : ∀ n < 0x20, getu4 [0x5C, 0x75, 0x30, 0x30,
    hexDigits.getD (n >>> 4) 0, hexDigits.getD (n &&& 0xF) 0] = some n := by
  decide

/-- What the decoder makes of the escape `safeAppendStringLike` writes for a byte. -/
theorem parseString_escapeByte {c : UInt8} (hc : c.toNat < RuneSelf)
    (hsafe : ¬ (0x20 ≤ c.toNat ∧ c ≠ 0x5C ∧ c ≠ 0x22)) (rest : List UInt8) :
    parseString ((escapeByte ⟨[]⟩ c).bs ++ rest) = prependDecoded [c] (parseString rest) := by
  unfold escapeByte
  split_ifs with h1 h2 h3 h4
  · simpa using parseString_escape (e := c) (by unfold unescape; rw [if_pos (by tauto)]) rest
  · subst h2; exact parseString_escape (by decide) rest
  · subst h3; exact parseString_escape (by decide) rest
  · subst h4; exact parseString_escape (by decide) rest
  · -- the remaining control bytes, written as `\u00` and two hexadecimal digits
    have hlow : c.toNat < 0x20 := by
      by_contra hge
      exact hsafe ⟨by omega, fun h => h1 (.inl h), fun h => h1 (.inr h)⟩
    have henc : encodeRune c.toNat = [c] := by
      simp [encodeRune, show c.toNat < 0x80 by omega]
    simpa [henc] using
      parseString_u (getu4_control c.toNat hlow) (by unfold IsSurrogate; omega) rest

/-- Each escaped piece decodes to the piece, an invalid byte to U+FFFD. -/
theorem parseString_escapePiece (p : Piece) (rest : List UInt8) :
    parseString (escapePiece p ++ rest) = prependDecoded p.replaced (parseString rest) := by
  cases p with
  | ascii b hb =>
    simp only [escapePiece, Piece.replaced, Piece.bytes]
    split_ifs with hsafe
    · exact parseString_unescaped hsafe.1 hb hsafe.2.2 hsafe.2.1 rest
    · exact parseString_escapeByte hb hsafe rest
  | rune bs hc hlen => exact parseString_char hc hlen rest
  | invalid b hb =>
    have henc : encodeRune 0xFFFD = [0xEF, 0xBF, 0xBD] := by decide
    simpa [escapePiece, Piece.replaced, henc] using
      @parseString_u 0x66 0x66 0x66 0x64 0xFFFD (by decide) (by decide) rest

/-- The escaped form of `s`, closed by a quotation mark, decodes to `s` with its invalid bytes
replaced, and the decoder resumes right after that quotation mark. -/
theorem parseString_escaped (s rest : List UInt8) :
    parseString (escaped s ++ 0x22 :: rest) = some (replaceInvalid s, rest) := by
  unfold escaped replaceInvalid
  induction pieces s with
  | nil => exact parseString_quote rest
  | cons p ps ih => rw [List.flatMap_cons, List.append_assoc, parseString_escapePiece, ih]; simp

/-- An escape is printable ASCII. -/
theorem escapeByte_no_control (c : UInt8) : ∀ b ∈ (escapeByte ⟨[]⟩ c).bs, 0x20 ≤ b.toNat := by
  have hdig : ∀ k < 16, 0x20 ≤ (hexDigits.getD k 0).toNat := by decide
  have hhi : c.toNat >>> 4 < 16 := by
    rw [Nat.shiftRight_eq_div_pow]; have := c.toNat_lt; omega
  have hlo : c.toNat &&& 0xF < 16 := Nat.lt_of_le_of_lt Nat.and_le_right (by norm_num)
  intro b hb
  unfold escapeByte at hb
  split_ifs at hb with h1 h2 h3 h4 <;>
    simp only [Buffer.appendByte_bs, Buffer.appendString_bs, List.nil_append, List.cons_append,
      ascii_u00, List.mem_cons, List.not_mem_nil, or_false] at hb
  · rcases hb with rfl | rfl
    · decide
    · rcases h1 with rfl | rfl <;> decide
  · rcases hb with rfl | rfl <;> decide
  · rcases hb with rfl | rfl <;> decide
  · rcases hb with rfl | rfl <;> decide
  · rcases hb with rfl | rfl | rfl | rfl | rfl | rfl
    · decide
    · decide
    · decide
    · decide
    · exact hdig _ hhi
    · exact hdig _ hlo

/-- No raw control byte is left in the escaped form. -/
theorem escaped_no_control (s : List UInt8) : ∀ b ∈ escaped s, 0x20 ≤ b.toNat := by
  intro b hb
  simp only [escaped, List.mem_flatMap] at hb
  obtain ⟨p, -, hb⟩ := hb
  cases p with
  | ascii c hc =>
    simp only [escapePiece] at hb
    split_ifs at hb with hsafe
    · simp only [List.mem_singleton] at hb; subst hb; exact hsafe.1
    · exact escapeByte_no_control c b hb
  | rune bs hc hlen => have := hc.not_ascii hlen b hb; unfold RuneSelf at this; omega
  | invalid c hc =>
    simp only [escapePiece, ascii_ufffd, List.mem_cons, List.not_mem_nil, or_false] at hb
    rcases hb with rfl | rfl | rfl | rfl | rfl | rfl <;> decide

/-! ### The JSON string literal the encoder writes -/

/-- The escaped form between quotation marks is one JSON string literal, and it decodes to the
input with its invalid bytes replaced. -/
theorem decodeStringLiteral_escaped (s : List UInt8) :
    decodeStringLiteral (0x22 :: escaped s ++ [0x22]) = some (replaceInvalid s) := by
  simp only [List.cons_append, decodeStringLiteral, parseString_escaped]

/-- Both instantiations write the same bytes for the same content. -/
theorem safeAddByteString_toArray (buf : Buffer) (s : List UInt8) :
    safeAddByteString buf s.toArray = safeAddString buf s := by
  have h : (safeAddByteString buf s.toArray).bs = (safeAddString buf s).bs := by
    rw [safeAddByteString_bs, safeAddString_bs, List.toList_toArray]
  cases hb : safeAddByteString buf s.toArray
  cases hs : safeAddString buf s
  simp_all

/-- What `safeAddString` and `safeAddByteString` append, put between quotation marks, is one
JSON string literal: it decodes to the input when that is valid UTF-8 and otherwise to the
input with U+FFFD for each byte that does not decode, and it holds no raw control byte. -/
theorem safeAppendStringLike_json (buf : Buffer) (s : List UInt8) :
    safeAddByteString buf s.toArray = safeAddString buf s ∧
    (safeAddString buf s).bs = buf.bs ++ escaped s ∧
    decodeStringLiteral (0x22 :: escaped s ++ [0x22]) = some (replaceInvalid s) ∧
    (∀ b ∈ escaped s, 0x20 ≤ b.toNat) ∧
    (Valid s → decodeStringLiteral (0x22 :: escaped s ++ [0x22]) = some s) := by
  refine ⟨safeAddByteString_toArray buf s, safeAddString_bs buf s, decodeStringLiteral_escaped s,
    escaped_no_control s, fun hv => ?_⟩
  rw [decodeStringLiteral_escaped, replaceInvalid_of_valid hv]

/-- A tab, an `é` and a quotation mark come back from the literal as they went in. -/
theorem safeAppendStringLike_json_tab_e_quote :
    decodeStringLiteral (0x22 :: escaped [0x09, 0xC3, 0xA9, 0x22] ++ [0x22]) =
      some [0x09, 0xC3, 0xA9, 0x22] := by
  have hv : Valid [0x09, 0xC3, 0xA9, 0x22] := by
    have h1 := Valid.cons (Char.ascii (by decide) : Char [0x09])
      (Valid.cons (Char.two (by decide) (by decide) (by decide) : Char [0xC3, 0xA9])
        (Valid.cons (Char.ascii (by decide) : Char [0x22]) Valid.nil))
    simpa using h1
  exact (safeAppendStringLike_json ⟨[]⟩ [0x09, 0xC3, 0xA9, 0x22]).2.2.2.2 hv

end Lad
