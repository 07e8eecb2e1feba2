import Lad.Ladcore.LevelText
import Lad.Ladcore.Encoder

/-!
# The level over HTTP

`AtomicLevel.ServeHTTP` reads each request once (`requestOp`) as a read, a write or a refusal,
and over every run of requests behaves as a register of one level (`serveAll_register`). What
`net/http` and `encoding/json` do is given with the handler; writing the answer never fails here.
-/

namespace Lad

/-- What the handler is given of `net/http`, `encoding/json` and `fmt`. -/
structure HandlerRuntime where
  /-- `unicode.ToLower`, for `bytes.ToLower` in `UnmarshalText`. -/
  lowerCase : Nat → Nat
  /-- `%q` of a string. -/
  quote : List UInt8 → List UInt8
  /-- A string as `encoding/json` encodes it, quotes included. -/
  quoteJSON : List UInt8 → List UInt8
  /-- `json.NewDecoder(body).Decode(&pld)` on `struct{ Level *Level }`, up to the call of
  `UnmarshalText`: the error, or the text of the member `level`, `none` where it is absent or
  `null`. -/
  decodeJSON : List UInt8 → Except Err (Option (List UInt8))

/-- A request, by what the handler reads of it: the method, the header `Content-Type`, the form
value `level` (`r.FormValue("level")`) and the body. -/
structure Request where
  Method : List UInt8
  contentType : List UInt8
  formLevel : List UInt8
  body : List UInt8
  deriving DecidableEq, Repr

/-- A response: the status and the body written. -/
structure Response where
  status : Nat
  body : List UInt8
  deriving DecidableEq, Repr

def MethodGet : List UInt8 := ascii "GET"

def MethodPut : List UInt8 := ascii "PUT"

/-- The content type of a form. -/
def formContentType : List UInt8 := ascii "application/x-www-form-urlencoded"

def LevelError.Error (quote : List UInt8 → List UInt8) : LevelError → List UInt8
  | .unmarshalNilLevel => ascii "can\x27t unmarshal a nil *Level"
  | .unrecognized text => ascii "unrecognized level: " ++ quote text

/-- The errors of `decodePutRequest`: `"must specify logging level"`, the error of
`UnmarshalText` on a form value, and `"malformed request body: %v"`. -/
inductive PutError
  | mustSpecify
  | level (e : LevelError)
  | malformed (err : Err)
  deriving DecidableEq, Repr

def PutError.Error (quote : List UInt8 → List UInt8) : PutError → List UInt8
  | .mustSpecify => ascii "must specify logging level"
  | .level e => e.Error quote
  | .malformed err => ascii "malformed request body: " ++ err

section Handler

variable (rt : HandlerRuntime)

/-- `decodePutURL(r)`: the form value, read into a zero `Level`. -/
def decodePutURL (r : Request) : Except PutError Level :=
  if r.formLevel = [] then .error .mustSpecify
  else
    match Level.UnmarshalText rt.lowerCase (some 0) r.formLevel with
    | (_, some err) => .error (.level err)
    | (l, none) => .ok (l.getD 0)

/-- `decodePutJSON(body)`: the `level` member, read by `UnmarshalText` while the body is decoded,
so that its error is one of the decoder's. -/
def decodePutJSON (body : List UInt8) : Except PutError Level :=
  match rt.decodeJSON body with
  | .error err => .error (.malformed err)
  | .ok none => .error .mustSpecify
  | .ok (some text) =>
    match Level.UnmarshalText rt.lowerCase (some 0) text with
    | (_, some err) => .error (.malformed (err.Error rt.quote))
    | (l, none) => .ok (l.getD 0)

def decodePutRequest (contentType : List UInt8) (r : Request) : Except PutError Level :=
  if contentType = formContentType then decodePutURL rt r
  else decodePutJSON rt r.body

/-- `enc.Encode(payload{Level: l})`: the level by its `MarshalText`, and a newline. -/
def payloadText (l : Level) : List UInt8 :=
  ascii "\x7b\"level\":" ++ rt.quoteJSON l.string ++ ascii "\x7d\n"

/-- `enc.Encode(errorResponse{Error: msg})`. -/
def errorText (msg : List UInt8) : List UInt8 :=
  ascii "\x7b\"error\":" ++ rt.quoteJSON msg ++ ascii "\x7d\n"

/-- The message of a method other than `GET` and `PUT`. -/
def onlyGetPutMsg : List UInt8 := ascii "Only GET and PUT are supported."

/-- `serveHTTP(w, r)`: the response and the level after it; `none` where the nil pointer of a zero
`AtomicLevel` is read or written. -/
def AtomicLevel.serveHTTP (lvl : AtomicLevel) (r : Request) : Option (Response × AtomicLevel) :=
  if r.Method = MethodGet then
    lvl.l.map fun l => (⟨200, payloadText rt l⟩, lvl)
  else if r.Method = MethodPut then
    match decodePutRequest rt r.contentType r with
    | .error err => some (⟨400, errorText rt (err.Error rt.quote)⟩, lvl)
    | .ok requested =>
      -- `SetLevel` then `Level()`: the level stored is the one answered
      lvl.l.map fun _ => (⟨200, payloadText rt requested⟩, ⟨some requested⟩)
  else some (⟨405, errorText rt onlyGetPutMsg⟩, lvl)

/-- `ServeHTTP(w, r)`: `serveHTTP`, whose writes of the answer do not fail here. -/
def AtomicLevel.ServeHTTP (lvl : AtomicLevel) (r : Request) : Option (Response × AtomicLevel) :=
  lvl.serveHTTP rt r

/-- The handler on requests one after another: the responses, and the level after them. -/
def AtomicLevel.serveAll (lvl : AtomicLevel) : List Request → Option (List Response × AtomicLevel)
  | [] => some ([], lvl)
  | r :: rs => do
    let (resp, lvl) ← lvl.ServeHTTP rt r
    let (resps, lvl) ← lvl.serveAll rs
    pure (resp :: resps, lvl)

/-! ### The register the handler is -/

/-- What a request asks of a register holding a level. -/
inductive RegisterOp
  | read
  | write (l : Level)
  | refuse (status : Nat) (msg : List UInt8)

/-- A register of one level: the answer to an operation, and the level after it. -/
def RegisterOp.apply : RegisterOp → Level → Response × Level
  | .read, l => (⟨200, payloadText rt l⟩, l)
  | .write l', _ => (⟨200, payloadText rt l'⟩, l')
  | .refuse status msg, l => (⟨status, errorText rt msg⟩, l)

/-- The register on operations one after another. -/
def RegisterOp.run : List RegisterOp → Level → List Response × Level
  | [], l => ([], l)
  | op :: ops, l =>
    let (resp, l) := op.apply rt l
    let (resps, l) := RegisterOp.run ops l
    (resp :: resps, l)

/-- What a request asks for. -/
def requestOp (r : Request) : RegisterOp :=
  if r.Method = MethodGet then .read
  else if r.Method = MethodPut then
    match decodePutRequest rt r.contentType r with
    | .error err => .refuse 400 (err.Error rt.quote)
    | .ok requested => .write requested
  else .refuse 405 onlyGetPutMsg

/-- One request on a level that is set is the register's step. -/
theorem serveHTTP_register (l : Level) (r : Request) :
    (AtomicLevel.mk (some l)).ServeHTTP rt r =
      some (((requestOp rt r).apply rt l).1, ⟨some ((requestOp rt r).apply rt l).2⟩) := by
  unfold AtomicLevel.ServeHTTP AtomicLevel.serveHTTP requestOp
  by_cases hget : r.Method = MethodGet
  · rw [if_pos hget, if_pos hget]
    rfl
  · rw [if_neg hget, if_neg hget]
    by_cases hput : r.Method = MethodPut
    · rw [if_pos hput, if_pos hput]
      cases decodePutRequest rt r.contentType r <;> rfl
    · rw [if_neg hput, if_neg hput]
      rfl

theorem serveAll_register (l : Level) (rs : List Request) :
    (AtomicLevel.mk (some l)).serveAll rt rs =
      some ((RegisterOp.run rt (rs.map (requestOp rt)) l).1,
        ⟨some (RegisterOp.run rt (rs.map (requestOp rt)) l).2⟩) := by
  -- induction on the requests, from any level: each step is the register's
  induction rs generalizing l with
  | nil => rfl
  | cons r rs ih =>
    rw [AtomicLevel.serveAll, serveHTTP_register]
    simp only [Option.bind_eq_bind, Option.bind_some, ih]
    rfl

/-! ### Names read back -/

/-- The name of a level from `DebugLevel` to `FatalLevel` is read back as that level. -/
theorem unmarshalText_string {l : Level} (hlo : DebugLevel ≤ l) (hhi : l ≤ FatalLevel) :
    Level.unmarshalText l.string = some l := by
  have hlo' : -1 ≤ l.toInt := Int8.le_iff_toInt_le.mp hlo
  have hhi' : l.toInt ≤ 5 := Int8.le_iff_toInt_le.mp hhi
  -- the seven levels, one by one
  obtain ⟨n, hn⟩ : ∃ n : Int, l.toInt = n := ⟨_, rfl⟩
  have hl : l = Int8.ofInt n := by rw [← hn, Int8.ofInt_toInt]
  subst hl
  rw [hn] at hlo' hhi'
  interval_cases n <;> decide

/-- The name of a level, as a form value or in a JSON body, is read as the level. -/
theorem decodePut_string {l : Level} (hlo : DebugLevel ≤ l) (hhi : l ≤ FatalLevel) :
    Level.UnmarshalText rt.lowerCase (some 0) l.string = (some l, none) := by
  rw [Level.UnmarshalText, unmarshalText_string hlo hhi]

/-- The name of a level from `DebugLevel` to `FatalLevel` is not empty. -/
theorem string_ne_nil {l : Level} (hlo : DebugLevel ≤ l) (hhi : l ≤ FatalLevel) :
    l.string ≠ [] := by
  intro h
  have hl := unmarshalText_string hlo hhi
  have hinfo : Level.unmarshalText [] = some InfoLevel := by decide
  rw [h, hinfo, Option.some.injEq] at hl
  subst hl
  exact absurd h (by decide)

/-- A form value naming a level sets it. -/
theorem decodePutURL_string {l : Level} (hlo : DebugLevel ≤ l) (hhi : l ≤ FatalLevel)
    {r : Request} (hr : r.formLevel = l.string) : decodePutURL rt r = .ok l := by
  rw [decodePutURL, if_neg (hr ▸ string_ne_nil hlo hhi), hr, decodePut_string rt hlo hhi]
  rfl

/-- A body the handler answers with, decoded as the encoder wrote it, sets the level it names. -/
theorem decodePutJSON_payload {l : Level}
    (hdecode : rt.decodeJSON (ascii "\x7b\"level\":" ++ rt.quoteJSON l.string ++ ascii "\x7d\n") =
      .ok (some l.string))
    (hlo : DebugLevel ≤ l) (hhi : l ≤ FatalLevel) :
    decodePutJSON rt (payloadText rt l) = .ok l := by
  rw [decodePutJSON, payloadText, hdecode]
  dsimp only
  rw [decodePut_string rt hlo hhi]
  rfl

theorem PUT_GET_roundtrip {l : Level}
    (hdecode : rt.decodeJSON (ascii "\x7b\"level\":" ++ rt.quoteJSON l.string ++ ascii "\x7d\n") =
      .ok (some l.string))
    (hlo : DebugLevel ≤ l) (hhi : l ≤ FatalLevel) (l₀ : Level) (get : Request)
    (hget : get.Method = MethodGet) (body : List UInt8) (ct formLevel : List UInt8)
    (hct : ct ≠ formContentType) :
    (AtomicLevel.mk (some l₀)).serveAll rt [⟨MethodPut, formContentType, l.string, body⟩, get] =
        some ([⟨200, payloadText rt l⟩, ⟨200, payloadText rt l⟩], ⟨some l⟩) ∧
      (AtomicLevel.mk (some l₀)).serveAll rt [⟨MethodPut, ct, formLevel, payloadText rt l⟩, get] =
        some ([⟨200, payloadText rt l⟩, ⟨200, payloadText rt l⟩], ⟨some l⟩) := by
  have hput : MethodPut ≠ MethodGet := by decide
  -- the `GET` reads what the `PUT` wrote
  have hread : requestOp rt get = .read := by rw [requestOp, if_pos hget]
  have hform : requestOp rt ⟨MethodPut, formContentType, l.string, body⟩ = .write l := by
    rw [requestOp, if_neg hput, if_pos rfl, decodePutRequest, if_pos rfl,
      decodePutURL_string rt hlo hhi rfl]
  have hjson : requestOp rt ⟨MethodPut, ct, formLevel, payloadText rt l⟩ = .write l := by
    rw [requestOp, if_neg hput, if_pos rfl, decodePutRequest, if_neg hct,
      decodePutJSON_payload rt hdecode hlo hhi]
  refine ⟨?_, ?_⟩
  · rw [serveAll_register, List.map_cons, List.map_cons, List.map_nil, hform, hread]
    rfl
  · rw [serveAll_register, List.map_cons, List.map_cons, List.map_nil, hjson, hread]
    rfl

end Handler

/-- A runtime whose JSON strings are quoted and whose decoder reads such a body back. -/
def plainHandlerRuntime : HandlerRuntime where
  lowerCase := id
  quote := fun s => [0x22] ++ s ++ [0x22]
  quoteJSON := fun s => [0x22] ++ s ++ [0x22]
  decodeJSON := fun body => .ok (some (((body.drop 10).reverse.drop 3).reverse))

/-- From `InfoLevel`, `PUT level=warn` then `GET`, and `PUT` of the body a `GET` at `WarnLevel`
answers with, then `GET`. -/
theorem PUT_GET_roundtrip_warn :
    plainHandlerRuntime.decodeJSON (ascii "\x7b\"level\":" ++
        plainHandlerRuntime.quoteJSON WarnLevel.string ++ ascii "\x7d\n") = .ok (some WarnLevel.string) ∧
      DebugLevel ≤ WarnLevel ∧ WarnLevel ≤ FatalLevel ∧
      (⟨MethodGet, [], [], []⟩ : Request).Method = MethodGet ∧ ([] : List UInt8) ≠ formContentType ∧
      (AtomicLevel.mk (some InfoLevel)).serveAll plainHandlerRuntime
          [⟨MethodPut, formContentType, WarnLevel.string, []⟩, ⟨MethodGet, [], [], []⟩] =
        some ([⟨200, payloadText plainHandlerRuntime WarnLevel⟩,
          ⟨200, payloadText plainHandlerRuntime WarnLevel⟩], ⟨some WarnLevel⟩) ∧
      (AtomicLevel.mk (some InfoLevel)).serveAll plainHandlerRuntime
          [⟨MethodPut, [], [], payloadText plainHandlerRuntime WarnLevel⟩, ⟨MethodGet, [], [], []⟩] =
        some ([⟨200, payloadText plainHandlerRuntime WarnLevel⟩,
          ⟨200, payloadText plainHandlerRuntime WarnLevel⟩], ⟨some WarnLevel⟩) := by
  have hdecode : plainHandlerRuntime.decodeJSON (ascii "\x7b\"level\":" ++
      plainHandlerRuntime.quoteJSON WarnLevel.string ++ ascii "\x7d\n") = .ok (some WarnLevel.string) := by
    have hpre : ascii "\x7b\"level\":" = [0x7B, 0x22, 0x6C, 0x65, 0x76, 0x65, 0x6C, 0x22, 0x3A] := by
      decide
    have hsuf : ascii "\x7d\n" = [0x7D, 0x0A] := by decide
    simp [plainHandlerRuntime, hpre, hsuf]
  have hct : ([] : List UInt8) ≠ formContentType := by decide
  exact ⟨hdecode, by decide, by decide, rfl, hct,
    PUT_GET_roundtrip plainHandlerRuntime hdecode (by decide) (by decide) InfoLevel
      ⟨MethodGet, [], [], []⟩ rfl [] [] [] hct⟩

end Lad
