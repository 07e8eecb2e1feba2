import Lad.Lib.JsonString

/-!
# JSON texts

A decoder for JSON texts (RFC 8259) on fuel; twice the length of the input never runs out. The
lemmas say what a text parses to under every such fuel (`ValueText`, `MembersText`,
`ElementsText`), so that members and elements compose.
-/

namespace Json

open Utf8

/-- A JSON value, as it is decoded: a number keeps its text, a string its bytes. -/
inductive Value where
  | null
  | bool (b : Bool)
  | num (text : List UInt8)
  | str (s : List UInt8)
  | arr (elems : List Value)
  | obj (members : List (List UInt8 × Value))
  deriving Repr

/-! ### Whitespace, literals and numbers -/

/-- Insignificant whitespace: space, tab, line feed, carriage return. -/
def isWs (c : UInt8) : Bool := c == 0x20 || c == 0x09 || c == 0x0A || c == 0x0D

def skipWs (s : List UInt8) : List UInt8 := s.dropWhile isWs

def isDigit (c : UInt8) : Bool := 0x30 ≤ c.toNat && c.toNat ≤ 0x39

/-- The bytes a number is made of. -/
def isNumByte (c : UInt8) : Bool :=
  isDigit c || c == 0x2D || c == 0x2B || c == 0x2E || c == 0x65 || c == 0x45

/-- `exp = e [ minus / plus ] 1*DIGIT`, or nothing. -/
def isExp : List UInt8 → Bool
  | [] => true
  | e :: r =>
    (e == 0x65 || e == 0x45) &&
      match r with
      | s :: t => if s == 0x2B || s == 0x2D then !t.isEmpty && t.all isDigit
        else (s :: t).all isDigit
      | [] => false

/-- `[ frac ] [ exp ]`, with `frac = decimal-point 1*DIGIT`. -/
def isFracExp : List UInt8 → Bool
  | [] => true
  | c :: r =>
    if c = 0x2E then !(r.takeWhile isDigit).isEmpty && isExp (r.dropWhile isDigit)
    else isExp (c :: r)

/-- `int [ frac ] [ exp ]`, with `int = zero / ( digit1-9 *DIGIT )`. -/
def isUnsignedNumber : List UInt8 → Bool
  | [] => false
  | c :: r =>
    if c = 0x30 then isFracExp r
    else (0x31 ≤ c.toNat && c.toNat ≤ 0x39) && isFracExp (r.dropWhile isDigit)

/-- `number = [ minus ] int [ frac ] [ exp ]`. -/
def isNumber : List UInt8 → Bool
  | [] => false
  | c :: r => if c = 0x2D then isUnsignedNumber r else isUnsignedNumber (c :: r)

/-- The longest run of number bytes, if it is a number. -/
def parseNumber (s : List UInt8) : Option (List UInt8 × List UInt8) :=
  if isNumber (s.takeWhile isNumByte) then some (s.takeWhile isNumByte, s.dropWhile isNumByte)
  else none

/-! ### The decoder -/

/-- Read the byte `b`. -/
def expect (b : UInt8) : List UInt8 → Option (List UInt8)
  | c :: r => if c = b then some r else none
  | [] => none

@[simp] theorem expect_self (b : UInt8) (r : List UInt8) : expect b (b :: r) = some r := by
  simp [expect]

mutual

/-- A value, after optional whitespace; its first byte says what kind of value it is. -/
def parseValue : Nat → List UInt8 → Option (Value × List UInt8)
  | 0, _ => none
  | n + 1, s =>
    match skipWs s with
    | [] => none
    | c :: rest =>
      if c = 0x7B then (parseMembers n true rest).map fun (ms, r) => (.obj ms, r)
      else if c = 0x5B then (parseElements n true rest).map fun (vs, r) => (.arr vs, r)
      else if c = 0x22 then (parseString rest).map fun (d, r) => (.str d, r)
      else if c = 0x74 then
        if rest.take 3 = [0x72, 0x75, 0x65] then some (.bool true, rest.drop 3) else none
      else if c = 0x66 then
        if rest.take 4 = [0x61, 0x6C, 0x73, 0x65] then some (.bool false, rest.drop 4) else none
      else if c = 0x6E then
        if rest.take 3 = [0x75, 0x6C, 0x6C] then some (.null, rest.drop 3) else none
      else (parseNumber (c :: rest)).map fun (x, r) => (.num x, r)

/-- The members of an object after its `{`, up to and including its `}`; `first` says that
no member has been read yet, so that none may be preceded by a comma. -/
def parseMembers : Nat → Bool → List UInt8 → Option (List (List UInt8 × Value) × List UInt8)
  | 0, _, _ => none
  | n + 1, first, s =>
    match skipWs s with
    | [] => none
    | c :: t =>
      if c = 0x7D then some ([], t)
      else do
        let s1 ← if first then some (c :: t) else if c = 0x2C then some (skipWs t) else none
        let r ← expect 0x22 s1
        let (k, r1) ← parseString r
        let r2 ← expect 0x3A (skipWs r1)
        let (v, r3) ← parseValue n r2
        let (ms, r4) ← parseMembers n false r3
        pure ((k, v) :: ms, r4)

/-- The elements of an array after its `[`, up to and including its `]`. -/
def parseElements : Nat → Bool → List UInt8 → Option (List Value × List UInt8)
  | 0, _, _ => none
  | n + 1, first, s =>
    match skipWs s with
    | [] => none
    | c :: t =>
      if c = 0x5D then some ([], t)
      else do
        let s1 ← if first then some (c :: t) else if c = 0x2C then some t else none
        let (v, r1) ← parseValue n s1
        let (vs, r2) ← parseElements n false r1
        pure (v :: vs, r2)

end

/-- A whole JSON text: one value between optional whitespace. -/
def decode (s : List UInt8) : Option Value :=
  match parseValue (2 * s.length + 1) s with
  | some (v, r) => if skipWs r = [] then some v else none
  | none => none

example : decode [0x7B, 0x22, 0x61, 0x22, 0x3A, 0x5B, 0x31, 0x2C, 0x20, 0x74, 0x72, 0x75,
    0x65, 0x5D, 0x7D] =
    some (.obj [([0x61], .arr [.num [0x31], .bool true])]) := by rfl

/-! ### What a text parses to -/

/-- `s` starts with a value, and parses to `x` under all fuel of twice its length. -/
def ValueText (s : List UInt8) (x : Value × List UInt8) : Prop :=
  ∀ n, 2 * s.length ≤ n → parseValue n s = some x

/-- `s` continues the members of an object up to its `}`, under all fuel beyond twice its length. -/
def MembersText (first : Bool) (s : List UInt8) (x : List (List UInt8 × Value) × List UInt8) :
    Prop :=
  ∀ n, 2 * s.length < n → parseMembers n first s = some x

/-- `s` continues the elements of an array up to its `]`. -/
def ElementsText (first : Bool) (s : List UInt8) (x : List Value × List UInt8) : Prop :=
  ∀ n, 2 * s.length < n → parseElements n first s = some x

/-- What may follow a value inside an object or an array: whitespace, a comma or a closing
bracket. -/
def Delimited (rest : List UInt8) : Prop :=
  ∀ c r, rest = c :: r → isWs c = true ∨ c = 0x2C ∨ c = 0x7D ∨ c = 0x5D

/-- What separates a member or an element from the previous one: nothing before the first, and
a comma, followed by a space in the spaced layout. -/
def sepText (first spaced : Bool) : List UInt8 :=
  if first then [] else if spaced then [0x2C, 0x20] else [0x2C]

/-- What separates a key from its value. -/
def colonText (spaced : Bool) : List UInt8 := if spaced then [0x3A, 0x20] else [0x3A]

/-- No number continues into what may follow a value. -/
theorem Delimited.isNumByte {rest : List UInt8} (h : Delimited rest) :
    ∀ c r, rest = c :: r → isNumByte c = false := by
  intro c r hcr
  rcases h c r hcr with hw | rfl | rfl | rfl
  · simp only [isWs, Bool.or_eq_true, beq_iff_eq] at hw
    rcases hw with ((rfl | rfl) | rfl) | rfl <;> decide
  all_goals decide

theorem skipWs_cons {c : UInt8} (h : isWs c = false) (s : List UInt8) :
    skipWs (c :: s) = c :: s := by
  simp [skipWs, h]

theorem skipWs_space (s : List UInt8) : skipWs (0x20 :: s) = skipWs s := by
  simp [skipWs, isWs]

theorem skipWs_skipWs (s : List UInt8) : skipWs (skipWs s) = skipWs s := by
  induction s with
  | nil => rfl
  | cons c s ih =>
    cases h : isWs c
    · rw [skipWs_cons h, skipWs_cons h]
    · simpa [skipWs, List.dropWhile_cons, h] using ih

theorem fuel_pos {n : Nat} {s : List UInt8} (h : 2 * (s.length + 1) ≤ n) : ∃ m, n = m + 1 ∧
    2 * s.length + 1 ≤ m :=
  ⟨n - 1, by omega, by omega⟩

/-- The value parser reads the same value after a leading space. -/
theorem parseValue_space (n : Nat) (s : List UInt8) :
    parseValue (n + 1) (0x20 :: s) = parseValue (n + 1) s := by
  simp only [parseValue, skipWs_space]

theorem parseValue_skipWs (n : Nat) (s : List UInt8) :
    parseValue (n + 1) (skipWs s) = parseValue (n + 1) s := by
  simp only [parseValue, skipWs_skipWs]

/-- Nothing parses as a value that starts at a closing bracket. -/
theorem parseValue_close {n : Nat} {s r : List UInt8} (h : skipWs s = 0x5D :: r) :
    parseValue n s = none := by
  cases n with
  | zero => rfl
  | succ n =>
    rw [parseValue, h]
    simp [parseNumber, isNumByte, isDigit, isNumber]

theorem valueText_str {body rest d : List UInt8} (h : parseString (body ++ rest) = some (d, rest)) :
    ValueText (0x22 :: body ++ rest) (.str d, rest) := by
  intro n hn
  obtain ⟨m, rfl, -⟩ := fuel_pos (s := body ++ rest) (by simpa using hn)
  rw [parseValue, List.cons_append, skipWs_cons (by decide)]
  simp [h]

theorem valueText_true (rest : List UInt8) :
    ValueText ([0x74, 0x72, 0x75, 0x65] ++ rest) (.bool true, rest) := by
  intro n hn
  obtain ⟨m, rfl, -⟩ := fuel_pos (s := [0x72, 0x75, 0x65] ++ rest) (by simpa using hn)
  rw [parseValue, List.cons_append, skipWs_cons (by decide)]
  simp

theorem valueText_false (rest : List UInt8) :
    ValueText ([0x66, 0x61, 0x6C, 0x73, 0x65] ++ rest) (.bool false, rest) := by
  intro n hn
  obtain ⟨m, rfl, -⟩ := fuel_pos (s := [0x61, 0x6C, 0x73, 0x65] ++ rest) (by simpa using hn)
  rw [parseValue, List.cons_append, skipWs_cons (by decide)]
  simp

theorem valueText_null (rest : List UInt8) :
    ValueText ([0x6E, 0x75, 0x6C, 0x6C] ++ rest) (.null, rest) := by
  intro n hn
  obtain ⟨m, rfl, -⟩ := fuel_pos (s := [0x75, 0x6C, 0x6C] ++ rest) (by simpa using hn)
  rw [parseValue, List.cons_append, skipWs_cons (by decide)]
  simp

/-- A byte of a number starts no other kind of value. -/
theorem isNumByte_head (c : UInt8) (h : isNumByte c = true) :
    isWs c = false ∧ c ≠ 0x7B ∧ c ≠ 0x5B ∧ c ≠ 0x22 ∧ c ≠ 0x74 ∧ c ≠ 0x66 ∧ c ≠ 0x6E := by
  refine ⟨?_, ?_, ?_, ?_, ?_, ?_, ?_⟩
  · cases hw : isWs c
    · rfl
    · simp only [isWs, Bool.or_eq_true, beq_iff_eq] at hw
      rcases hw with ((rfl | rfl) | rfl) | rfl <;> revert h <;> decide
  all_goals rintro rfl; revert h; decide

/-- A number, followed by a byte that cannot continue it, parses to its own text. -/
theorem valueText_num {t rest : List UInt8} (ht : isNumber t = true)
    (hall : ∀ c ∈ t, isNumByte c = true) (hrest : ∀ c r, rest = c :: r → isNumByte c = false) :
    ValueText (t ++ rest) (.num t, rest) := by
  obtain ⟨c, t', rfl⟩ : ∃ c t', t = c :: t' := by
    cases t with
    | nil => simp [isNumber] at ht
    | cons c t' => exact ⟨c, t', rfl⟩
  obtain ⟨hws, h1, h2, h3, h4, h5, h6⟩ := isNumByte_head c (hall c (by simp))
  have htake : (c :: t' ++ rest).takeWhile isNumByte = c :: t' := by
    rw [List.takeWhile_append_of_pos hall]
    cases rest with
    | nil => simp
    | cons d r => simp [hrest d r rfl]
  have hdrop : (c :: t' ++ rest).dropWhile isNumByte = rest := by
    rw [List.dropWhile_append_of_pos hall]
    cases rest with
    | nil => simp
    | cons d r => simp [hrest d r rfl]
  intro n hn
  obtain ⟨m, rfl, -⟩ := fuel_pos (s := t' ++ rest) (by simpa using hn)
  rw [parseValue, List.cons_append, skipWs_cons hws]
  simp only [if_neg h1, if_neg h2, if_neg h3, if_neg h4, if_neg h5, if_neg h6]
  rw [parseNumber, ← List.cons_append, htake, hdrop, if_pos ht]
  rfl

/-- A value may be preceded by a space. -/
theorem ValueText.space {s : List UInt8} {x : Value × List UInt8} (h : ValueText s x) :
    ValueText (0x20 :: s) x := by
  intro n hn
  obtain ⟨m, rfl, -⟩ := fuel_pos (s := s) (by simpa using hn)
  rw [parseValue_space]
  exact h _ (by simp at hn; omega)

theorem valueText_obj {s : List UInt8} {x : List (List UInt8 × Value) × List UInt8}
    (h : MembersText true s x) : ValueText (0x7B :: s) (.obj x.1, x.2) := by
  intro n hn
  obtain ⟨m, rfl, hm⟩ := fuel_pos (s := s) (by simpa using hn)
  rw [parseValue, skipWs_cons (by decide)]
  simp [h m (by omega)]

theorem valueText_arr {s : List UInt8} {x : List Value × List UInt8}
    (h : ElementsText true s x) : ValueText (0x5B :: s) (.arr x.1, x.2) := by
  intro n hn
  obtain ⟨m, rfl, hm⟩ := fuel_pos (s := s) (by simpa using hn)
  rw [parseValue, skipWs_cons (by decide)]
  simp [h m (by omega)]

theorem membersText_close (first : Bool) (rest : List UInt8) :
    MembersText first (0x7D :: rest) ([], rest) := by
  intro n hn
  obtain ⟨m, rfl, -⟩ := fuel_pos (n := n) (s := rest) (by simp only [List.length_cons] at hn; omega)
  rw [parseMembers, skipWs_cons (by decide)]
  rfl

theorem elementsText_close (first : Bool) (rest : List UInt8) :
    ElementsText first (0x5D :: rest) ([], rest) := by
  intro n hn
  obtain ⟨m, rfl, -⟩ := fuel_pos (n := n) (s := rest) (by simp only [List.length_cons] at hn; omega)
  rw [parseElements, skipWs_cons (by decide)]
  rfl

/-- After the separator, a member starts with the quotation mark of its key. -/
theorem parseMembers_sep_key (m : Nat) (first spaced : Bool) (K : List UInt8) :
    parseMembers (m + 1) first (sepText first spaced ++ 0x22 :: K) =
      (parseString K).bind fun (k, r1) =>
        (expect 0x3A (skipWs r1)).bind fun r2 =>
          (parseValue m r2).bind fun (v, r3) =>
            (parseMembers m false r3).bind fun (ms, r4) => some ((k, v) :: ms, r4) := by
  have hq : (0x22 : UInt8) ≠ 0x7D := by decide
  have hc : (0x2C : UInt8) ≠ 0x7D := by decide
  cases first <;> cases spaced <;>
    simp only [sepText, Bool.false_eq_true, if_true, if_false, List.nil_append, List.cons_append] <;>
    rw [parseMembers, skipWs_cons (by decide)] <;>
    simp only [if_neg hq, if_neg hc, if_true, if_false, Bool.false_eq_true, Option.bind_eq_bind,
      Option.bind_some, expect_self, skipWs_space, skipWs_cons (show isWs 0x22 = false by decide),
      Option.pure_def]

/-- The colon after a key is read past, and the space after it in the spaced layout. -/
theorem expect_colon (spaced : Bool) (X : List UInt8) :
    expect 0x3A (skipWs (colonText spaced ++ X)) = some (if spaced then 0x20 :: X else X) := by
  cases spaced <;>
    simp only [colonText, Bool.false_eq_true, if_true, if_false, List.cons_append,
      List.nil_append] <;>
    rw [skipWs_cons (by decide)] <;> rfl

/-- One member, after the separator from the member before it: a key, whose body the string
decoder reads back as `k` whatever follows its closing quotation mark, and a value. -/
theorem MembersText.cons (first spaced : Bool) {kb vt rest k : List UInt8} {v : Value}
    {x : List (List UInt8 × Value) × List UInt8}
    (hk : ∀ r, parseString (kb ++ 0x22 :: r) = some (k, r))
    (hv : ValueText (vt ++ rest) (v, rest)) (hms : MembersText false rest x) :
    MembersText first
      (sepText first spaced ++ 0x22 :: (kb ++ 0x22 :: (colonText spaced ++ (vt ++ rest))))
      ((k, v) :: x.1, x.2) := by
  intro n hn
  obtain ⟨m, rfl, hm⟩ : ∃ m, n = m + 1 ∧ 2 * (kb.length + 2 + (vt ++ rest).length) ≤ m := by
    refine ⟨n - 1, by omega, ?_⟩
    cases first <;> cases spaced <;> simp [sepText, colonText] at hn ⊢ <;> omega
  -- the value, read after the colon and, in the spaced layout, a space
  have hval : parseValue m (if spaced then 0x20 :: (vt ++ rest) else vt ++ rest) =
      some (v, rest) := by
    obtain ⟨m', rfl⟩ : ∃ m', m = m' + 1 := ⟨m - 1, by omega⟩
    cases spaced
    · exact hv _ (by omega)
    · rw [if_pos rfl, parseValue_space]
      exact hv _ (by omega)
  have hmsm := hms m (by simp at hm; omega)
  rw [parseMembers_sep_key, hk]
  simp only [Option.bind_some, expect_colon, hval, hmsm]

/-- One element, after the separator from the element before it. -/
theorem ElementsText.cons (first spaced : Bool) {vt rest : List UInt8} {v : Value}
    {x : List Value × List UInt8} (hne : vt ≠ [])
    (hv : ValueText (vt ++ rest) (v, rest)) (hes : ElementsText false rest x) :
    ElementsText first (sepText first spaced ++ (vt ++ rest)) (v :: x.1, x.2) := by
  intro n hn
  have hlen : 0 < vt.length := List.length_pos_iff.mpr hne
  obtain ⟨m, rfl, hm⟩ : ∃ m, n = m + 1 ∧ 2 * (vt ++ rest).length ≤ m := by
    refine ⟨n - 1, by omega, ?_⟩
    cases first <;> cases spaced <;> simp [sepText] at hn ⊢ <;> omega
  obtain ⟨m', rfl⟩ : ∃ m', m = m' + 1 := ⟨m - 1, by simp at hm; omega⟩
  have hvm := hv (m' + 1) hm
  have hesm := hes (m' + 1) (by simp at hm ⊢; omega)
  cases first
  · -- a later element: the comma, and a space in the spaced layout, are read past
    have hc : (0x2C : UInt8) ≠ 0x5D := by decide
    cases spaced <;>
      simp only [sepText, Bool.false_eq_true, if_true, if_false, List.cons_append] <;>
      rw [parseElements, skipWs_cons (by decide)] <;>
      simp [hc, parseValue_space, hvm, hesm]
  · -- the first element: the value starts at the first byte that is not whitespace
    simp only [sepText, if_true, List.nil_append]
    rcases hsk : skipWs (vt ++ rest) with _ | ⟨c, t⟩
    · rw [parseValue, hsk] at hvm
      cases hvm
    · have hc : c ≠ 0x5D := by
        rintro rfl
        rw [parseValue_close hsk] at hvm
        cases hvm
      rw [parseElements, hsk]
      simp only [if_neg hc, if_true, Option.bind_eq_bind, Option.bind_some]
      rw [← hsk, parseValue_skipWs]
      simp [hvm, hesm]

/-- A whole text that is one value. -/
theorem decode_of_valueText {s : List UInt8} {v : Value} (h : ValueText s (v, [])) :
    decode s = some v := by
  simp [decode, h (2 * s.length + 1) (by omega), skipWs]

end Json
