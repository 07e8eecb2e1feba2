import Lad.Lib.Unicode
import Lad.Ladcore.Encoder

/-!
# The sink registry

`RegisterSink` files a factory under its scheme lowered by `normalizeScheme`, and `newSink` looks
the scheme of a parsed URL up. On ASCII schemes it keeps the documented contract
(`RegisterSink_of_ascii`), but `strings.ToLower` follows Unicode's tables, so the Kelvin sign is
registered as `k` (`RegisterSink_kelvin`).
-/

namespace Lad

open Go Utf8

def schemeFile : List UInt8 := ascii "file"

/-! ### `normalizeScheme` -/

/-- The errors of `normalizeScheme`: `"must start with a letter"`, and `"may not contain %q"` of
the first byte it rejects. -/
inductive SchemeError
  | mustStartWithLetter
  | mayNotContain (c : UInt8)
  deriving DecidableEq, Repr

/-- A byte `normalizeScheme` lets through after the first: `a` to `z`, `0` to `9`, `.`, `+`
and `-`. -/
def schemeByte (c : UInt8) : Bool :=
  (0x61 ≤ c.toNat && c.toNat ≤ 0x7A) || (0x30 ≤ c.toNat && c.toNat ≤ 0x39) ||
    c == 0x2E || c == 0x2B || c == 0x2D

/-- `normalizeScheme(s)`: `s` lower-cased, then checked byte by byte, not rune by rune; `none`
where the lower-cased string is empty and `s[0]` panics. -/
def normalizeScheme (lowerCase : Nat → Nat) (s : List UInt8) :
    Option (Except SchemeError (List UInt8)) :=
  match strings.ToLower lowerCase s with
  | [] => none
  | first :: rest =>
    if first.toNat < 0x61 ∨ 0x7A < first.toNat then some (.error .mustStartWithLetter)
    else
      match rest.find? (fun c => !schemeByte c) with
      | some c => some (.error (.mayNotContain c))
      | none => some (.ok (first :: rest))

/-! ### The registry -/

/-- The errors of `RegisterSink`: `"can't register a sink factory for empty string"`, `"%q is
not a valid scheme: %v"` of the scheme and the error of `normalizeScheme`, and `"sink factory
already registered for scheme %q"` of the lower-cased scheme. -/
inductive RegisterError
  | emptyScheme
  | invalidScheme (scheme : List UInt8) (err : SchemeError)
  | alreadyRegistered (normalized : List UInt8)
  deriving DecidableEq, Repr

/-- `sinkRegistry`: its factories, of any type `φ`, keyed by scheme, newest first. -/
structure sinkRegistry (φ : Type) where
  factories : List (List UInt8 × φ)

variable {φ : Type}

/-- `sinkRegistry.RegisterSink(scheme, factory)`: the registry after the call and the error;
`none` where it panics. -/
def sinkRegistry.RegisterSink (lowerCase : Nat → Nat) (sr : sinkRegistry φ) (scheme : List UInt8)
    (factory : φ) : Option (sinkRegistry φ × Option RegisterError) :=
  if scheme = [] then some (sr, some .emptyScheme)
  else
    match normalizeScheme lowerCase scheme with
    | none => none
    | some (.error err) => some (sr, some (.invalidScheme scheme err))
    | some (.ok normalized) =>
      match sr.factories.lookup normalized with
      | some _ => some (sr, some (.alreadyRegistered normalized))
      | none => some (⟨(normalized, factory) :: sr.factories⟩, none)

/-- `newSinkRegistry()`: an empty registry with the file factory registered, the error of that
registration dropped. -/
def newSinkRegistry (lowerCase : Nat → Nat) (newFileSinkFromURL : φ) : sinkRegistry φ :=
  match sinkRegistry.RegisterSink lowerCase ⟨[]⟩ schemeFile newFileSinkFromURL with
  | some (sr, _) => sr
  | none => ⟨[]⟩

/-- A parsed URL, as far as `newSink` reads it. -/
structure URL where
  Scheme : List UInt8
  Path : List UInt8
  deriving DecidableEq, Repr

/-- What `newSink` goes on to call: `newFileSinkFromPath` on an absolute path, or a factory on
the parsed URL. -/
inductive SinkCall (φ : Type)
  | fromPath (path : List UInt8)
  | factory (f : φ) (u : URL)

/-- The errors of `newSink` before a call: `"can't parse %q as a URL: %v"` and
`errSinkNotFound`, `"no sink found for scheme %q"`. -/
inductive NewSinkError
  | cantParse (rawURL : List UInt8) (err : Err)
  | notFound (scheme : List UInt8)
  deriving DecidableEq, Repr

/-- `sinkRegistry.newSink(rawURL)`, with `filepath.IsAbs` and `url.Parse` as parameters. -/
def sinkRegistry.newSink (isAbs : List UInt8 → Bool) (parse : List UInt8 → Except Err URL)
    (sr : sinkRegistry φ) (rawURL : List UInt8) : Except NewSinkError (SinkCall φ) :=
  if isAbs rawURL then .ok (.fromPath rawURL)
  else
    match parse rawURL with
    | .error err => .error (.cantParse rawURL err)
    | .ok u =>
      let u := if u.Scheme = [] then { u with Scheme := schemeFile } else u
      match sr.factories.lookup u.Scheme with
      | none => .error (.notFound u.Scheme)
      | some factory => .ok (.factory factory u)

/-! ### What `RegisterSink` does to the factories -/

/-- `RegisterSink` does not panic: lower-casing keeps a scheme that is not empty so. -/
theorem normalizeScheme_ne_none (lowerCase : Nat → Nat) {s : List UInt8} (hs : s ≠ []) :
    normalizeScheme lowerCase s ≠ none := by
  unfold normalizeScheme
  split
  · next h => exact absurd h (bytes.ToLower_ne_nil _ hs)
  · split
    · simp
    · split <;> simp

/-- A call either fails and leaves the factories as they were, or adds one factory under a key
that had none. -/
theorem RegisterSink_cases (lowerCase : Nat → Nat) (sr : sinkRegistry φ) (scheme : List UInt8)
    (factory : φ) :
    (∃ err, sr.RegisterSink lowerCase scheme factory = some (sr, some err)) ∨
      ∃ normalized, normalizeScheme lowerCase scheme = some (.ok normalized) ∧
        sr.factories.lookup normalized = none ∧
        sr.RegisterSink lowerCase scheme factory =
          some (⟨(normalized, factory) :: sr.factories⟩, none) := by
  unfold sinkRegistry.RegisterSink
  split
  · exact .inl ⟨_, rfl⟩
  · next hne =>
    rcases hn : normalizeScheme lowerCase scheme with _ | ⟨err⟩ | ⟨normalized⟩
    · exact absurd hn (normalizeScheme_ne_none _ hne)
    · exact .inl ⟨_, rfl⟩
    · rcases hl : sr.factories.lookup normalized with _ | f
      · exact .inr ⟨normalized, rfl, hl, by simp [hl]⟩
      · exact .inl ⟨.alreadyRegistered normalized, by simp [hl]⟩

/-! ### ASCII schemes -/

/-- `ALPHA` of RFC 5234. -/
def isAlpha (c : UInt8) : Bool :=
  (0x41 ≤ c.toNat && c.toNat ≤ 0x5A) || (0x61 ≤ c.toNat && c.toNat ≤ 0x7A)

/-- `DIGIT` of RFC 5234. -/
def isDigit (c : UInt8) : Bool := 0x30 ≤ c.toNat && c.toNat ≤ 0x39

/-- RFC 3986 §3.1: `scheme = ALPHA *( ALPHA / DIGIT / "+" / "-" / "." )`. -/
def ValidScheme : List UInt8 → Bool
  | [] => false
  | c :: cs => isAlpha c && cs.all fun d => isAlpha d || isDigit d || d == 0x2B || d == 0x2D || d == 0x2E

/-- A lower-cased byte is a lower-case letter exactly when the byte is a letter. -/
theorem toLowerASCII_lower_iff (c : UInt8) :
    (toLowerASCII c).toNat < 0x61 ∨ 0x7A < (toLowerASCII c).toNat ↔ isAlpha c = false := by
  rw [toLowerASCII_toNat]
  simp only [isAlpha, Bool.or_eq_false_iff, Bool.and_eq_false_iff, decide_eq_false_iff_not]
  split_ifs <;> omega

/-- A lower-cased byte passes the check after the first exactly when the byte is allowed
there. -/
theorem schemeByte_toLowerASCII (c : UInt8) :
    schemeByte (toLowerASCII c) =
      (isAlpha c || isDigit c || c == 0x2B || c == 0x2D || c == 0x2E) := by
  have h := toLowerASCII_toNat c
  rw [Bool.eq_iff_iff]
  simp only [schemeByte, isAlpha, isDigit, Bool.or_eq_true, Bool.and_eq_true,
    decide_eq_true_eq, beq_iff_eq, ← UInt8.toNat_inj, UInt8.reduceToNat, h]
  split_ifs <;> omega

/-- On ASCII, `normalizeScheme` accepts exactly the valid schemes, as their ASCII lower-casing. -/
theorem normalizeScheme_ok_iff_of_ascii (lowerCase : Nat → Nat) {s n : List UInt8}
    (hs : ∀ b ∈ s, b.toNat < RuneSelf) :
    normalizeScheme lowerCase s = some (.ok n) ↔ ValidScheme s = true ∧ n = s.map toLowerASCII := by
  rw [normalizeScheme, strings.ToLower, bytes.ToLower_of_ascii _ hs]
  cases s with
  | nil => simp [ValidScheme]
  | cons c cs =>
    simp only [List.map_cons]
    by_cases hc : isAlpha c = true
    · have hfirst : ¬((toLowerASCII c).toNat < 0x61 ∨ 0x7A < (toLowerASCII c).toNat) := by
        rw [toLowerASCII_lower_iff]; simp [hc]
      rw [if_neg hfirst]
      -- the bytes after the first are checked one by one, as `ValidScheme` checks them
      have hrest : (cs.map toLowerASCII).find? (fun c => !schemeByte c) = none ↔
          cs.all (fun d => isAlpha d || isDigit d || d == 0x2B || d == 0x2D || d == 0x2E) := by
        rw [List.find?_eq_none, List.all_eq_true]
        simp only [List.mem_map, forall_exists_index, and_imp, forall_apply_eq_imp_iff₂,
          schemeByte_toLowerASCII, Bool.not_eq_true', Bool.not_eq_false]
      split
      · next d hd =>
        have hbad : ¬cs.all (fun d => isAlpha d || isDigit d || d == 0x2B || d == 0x2D || d == 0x2E) :=
          fun hall => by simp [hrest.2 hall] at hd
        simp [ValidScheme, hbad]
      · next hd =>
        simp only [ValidScheme, hc, hrest.1 hd, Bool.and_self, Option.some.injEq, Except.ok.injEq,
          true_and]
        exact eq_comm
    · have hfirst : (toLowerASCII c).toNat < 0x61 ∨ 0x7A < (toLowerASCII c).toNat := by
        rw [toLowerASCII_lower_iff]; simpa using hc
      rw [if_pos hfirst]
      simp [ValidScheme, hc]

/-- On ASCII schemes, `RegisterSink` keeps the documented contract: it succeeds exactly on a valid
scheme whose lower-casing has no factory, and adds that one key; otherwise the factories are as
they were. -/
theorem RegisterSink_of_ascii (lowerCase : Nat → Nat) (sr : sinkRegistry φ) {scheme : List UInt8}
    (factory : φ) (hs : ∀ b ∈ scheme, b.toNat < RuneSelf) :
    (ValidScheme scheme = true ∧ sr.factories.lookup (scheme.map toLowerASCII) = none ∧
        sr.RegisterSink lowerCase scheme factory =
          some (⟨(scheme.map toLowerASCII, factory) :: sr.factories⟩, none)) ∨
      (¬(ValidScheme scheme = true ∧ sr.factories.lookup (scheme.map toLowerASCII) = none) ∧
        ∃ err, sr.RegisterSink lowerCase scheme factory = some (sr, some err)) := by
  rcases RegisterSink_cases lowerCase sr scheme factory with ⟨err, herr⟩ | ⟨n, hn, hl, hreg⟩
  · refine .inr ⟨?_, err, herr⟩
    rintro ⟨hvalid, hfree⟩
    -- a valid scheme with a free key would have been added
    have hn : normalizeScheme lowerCase scheme = some (.ok (scheme.map toLowerASCII)) :=
      (normalizeScheme_ok_iff_of_ascii lowerCase hs).2 ⟨hvalid, rfl⟩
    have hne : scheme ≠ [] := by
      rintro rfl
      simp [ValidScheme] at hvalid
    simp [sinkRegistry.RegisterSink, hne, hn, hfree] at herr
  · obtain ⟨hvalid, rfl⟩ := (normalizeScheme_ok_iff_of_ascii lowerCase hs).1 hn
    exact .inl ⟨hvalid, hl, hreg⟩

/-- `Mem` on the registry of a fresh process. -/
theorem RegisterSink_of_ascii_Mem :
    (∀ b ∈ ascii "Mem", b.toNat < RuneSelf) ∧
      ((ValidScheme (ascii "Mem") = true ∧
          (newSinkRegistry id ()).factories.lookup ((ascii "Mem").map toLowerASCII) = none ∧
          (newSinkRegistry id ()).RegisterSink id (ascii "Mem") () =
            some (⟨((ascii "Mem").map toLowerASCII, ()) :: (newSinkRegistry id ()).factories⟩,
              none)) ∨
        (¬(ValidScheme (ascii "Mem") = true ∧
            (newSinkRegistry id ()).factories.lookup ((ascii "Mem").map toLowerASCII) = none) ∧
          ∃ err, (newSinkRegistry id ()).RegisterSink id (ascii "Mem") () =
            some (newSinkRegistry id (), some err))) :=
  ⟨by decide +kernel, RegisterSink_of_ascii id _ () (by decide +kernel)⟩

/-- The Kelvin sign, lower-cased by tables that map `U+212A` to `k`, is `k`. -/
theorem ToLower_kelvin {lowerCase : Nat → Nat} (h : lowerCase 0x212A = 0x6B) :
    strings.ToLower lowerCase [0xE2, 0x84, 0xAA] = ascii "k" := by
  have hK : Char [0xE2, 0x84, 0xAA] := .three (.inl ⟨by decide, by decide⟩) (by decide) (by decide)
  rw [strings.ToLower, bytes.ToLower, if_neg (by decide)]
  show bytes.Map _ ([0xE2, 0x84, 0xAA] ++ []) = _
  rw [bytes.Map_char_append _ hK (by decide), bytes.Map_nil]
  have hdec : (decodeRune [0xE2, 0x84, 0xAA]).1 = 0x212A := by decide
  simp [hdec, unicode.ToLower, MaxASCII, h]
  decide

/-- The Kelvin sign is not ASCII, so it is no scheme of RFC 3986, yet `RegisterSink` registers it,
as the scheme `k`. -/
theorem RegisterSink_kelvin (lowerCase : Nat → Nat) (h : lowerCase 0x212A = 0x6B)
    (sr : sinkRegistry φ) (factory : φ) (hk : sr.factories.lookup (ascii "k") = none) :
    ¬(∀ b ∈ ([0xE2, 0x84, 0xAA] : List UInt8), b.toNat < RuneSelf) ∧
      sr.RegisterSink lowerCase [0xE2, 0x84, 0xAA] factory =
        some (⟨(ascii "k", factory) :: sr.factories⟩, none) := by
  have hnorm : normalizeScheme lowerCase [0xE2, 0x84, 0xAA] = some (.ok (ascii "k")) := by
    rw [normalizeScheme, ToLower_kelvin h]
    rfl
  refine ⟨by decide +kernel, ?_⟩
  simp [sinkRegistry.RegisterSink, hnorm, hk]

theorem RegisterSink_kelvin_file :
    (fun r : Nat => if r = 0x212A then 0x6B else r) 0x212A = 0x6B ∧
      (sinkRegistry.mk [(schemeFile, ())]).factories.lookup (ascii "k") = none ∧
      ¬(∀ b ∈ ([0xE2, 0x84, 0xAA] : List UInt8), b.toNat < RuneSelf) ∧
      (sinkRegistry.mk [(schemeFile, ())]).RegisterSink (fun r => if r = 0x212A then 0x6B else r)
          [0xE2, 0x84, 0xAA] () = some (⟨[(ascii "k", ()), (schemeFile, ())]⟩, none) :=
  ⟨rfl, by decide,
    RegisterSink_kelvin (fun r => if r = 0x212A then 0x6B else r) rfl ⟨[(schemeFile, ())]⟩ ()
      (by decide)⟩

end Lad
