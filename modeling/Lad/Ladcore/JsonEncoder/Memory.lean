import Lad.Ladcore.JsonEncoder.EncodeEntry
import Lad.Ladcore.MemoryEncoder

/-!
# The map encoder describes what the JSON encoder writes

For a plain script (`ObjectMarshaler.Plain`), the JSON text, closed and decoded, is the tree the
map encoder holds, keys and strings read as the decoder reads their escaped form
(`decode_eq_mapObjectEncoder`). On a key that is not valid UTF-8 the two differ
(`decode_ne_mapObjectEncoder_invalid_key`).
-/

namespace Lad

open Go Utf8

mutual

/-- The JSON value that holds the data of a value the map encoder stored, each key and string
read through `rd`: a string as its bytes, an integer as its exact decimal, a map entry by entry,
a slice element by element. Values a JSON decoder does not give back as themselves (floats,
complex numbers, durations, times, byte slices, reflected values) are not compared, and are
`null`. -/
def MapValue.toJson (rd : List UInt8 → List UInt8) : MapValue → Json.Value
  | .elem (.prim (.bool b)) => .bool b
  | .elem (.prim (.int64 i)) => .num (Json.decimal i)
  | .elem (.prim (.uint64 n)) => .num (Json.decimal n)
  | .elem (.prim (.string s)) => .str (rd s)
  | .obj fs => .obj (MapValue.membersJson rd fs)
  | .arr vs => .arr (MapValue.elemsJson rd vs)
  | _ => .null

/-- The members of a map, as `toJson` reads them. -/
def MapValue.membersJson (rd : List UInt8 → List UInt8) : GoMap → List (List UInt8 × Json.Value)
  | [] => []
  | (k, v) :: fs => (rd k, v.toJson rd) :: MapValue.membersJson rd fs

/-- The elements of a slice, as `toJson` reads them. -/
def MapValue.elemsJson (rd : List UInt8 → List UInt8) : List MapValue → List Json.Value
  | [] => []
  | v :: vs => v.toJson rd :: MapValue.elemsJson rd vs

end

/-- Booleans, strings, byte strings and integers: the values the comparison covers. -/
def Prim.isPlain : Prim → Bool
  | .bool _ | .byteString _ | .int64 _ | .string _ | .uint64 _ => true
  | _ => false

mutual

/-- A script that adds only plain values, nested objects and arrays and namespaces, whatever
errors its nested marshalers return. -/
def ObjectMarshaler.Plain : ObjectMarshaler → Prop
  | .ret _ => True
  | .addArray _ m k => m.Plain ∧ ∀ e, (k e).Plain
  | .addObject _ m k => m.Plain ∧ ∀ e, (k e).Plain
  | .add _ (.prim p) k => p.isPlain ∧ k.Plain
  | .openNamespace _ k => k.Plain
  | _ => False

/-- An array script that appends only plain values, nested objects and arrays. -/
def ArrayMarshaler.Plain : ArrayMarshaler → Prop
  | .ret _ => True
  | .appendArray m k => m.Plain ∧ ∀ e, (k e).Plain
  | .appendObject m k => m.Plain ∧ ∀ e, (k e).Plain
  | .append (.prim p) k => p.isPlain ∧ k.Plain
  | _ => False

end

namespace JsonEncoder

section Plain

variable (rt : Runtime) (cfg : EncoderConfig)

/-- A plain value denotes the JSON value of what the map encoder stores for it. -/
theorem elemValue_plain {p : Prim} (hp : p.isPlain) :
    elemValue rt cfg (.prim p) = (storedElem (.prim p)).toJson replaceInvalid := by
  cases p <;> simp_all [Prim.isPlain, elemValue, primValue, storedElem, MapValue.toJson]

mutual

/-- For a plain script, the JSON encoder's tree is the map encoder's, read as JSON. -/
theorem objectTree_plain : ∀ m : ObjectMarshaler, m.Plain →
    objectTree rt cfg m =
      (MapValue.membersJson replaceInvalid (mapObjectTree m).1, (mapObjectTree m).2)
  | .ret _, _ => rfl
  | .addArray key v k, ⟨hv, hk⟩ => by
    simp only [objectTree, mapObjectTree]
    rw [arrayTree_plain v hv, objectTree_plain (k (sliceArrayTree v).2) (hk _)]
    rfl
  | .addObject key v k, ⟨hv, hk⟩ => by
    simp only [objectTree, mapObjectTree]
    rw [objectTree_plain v hv, objectTree_plain (k (mapObjectTree v).2) (hk _)]
    rfl
  | .add key (.prim p) k, ⟨hp, hk⟩ => by
    simp only [objectTree, mapObjectTree]
    rw [objectTree_plain k hk, elemValue_plain rt cfg hp]
    rfl
  | .openNamespace key k, hk => by
    simp only [objectTree, mapObjectTree]
    rw [objectTree_plain k hk]
    rfl

/-- For a plain array script, the JSON encoder's elements are the map encoder's, read as
JSON. -/
theorem arrayTree_plain : ∀ m : ArrayMarshaler, m.Plain →
    arrayTree rt cfg m = (MapValue.elemsJson replaceInvalid (sliceArrayTree m).1, (sliceArrayTree m).2)
  | .ret _, _ => rfl
  | .appendArray v k, ⟨hv, hk⟩ => by
    simp only [arrayTree, sliceArrayTree]
    rw [arrayTree_plain v hv, arrayTree_plain (k (sliceArrayTree v).2) (hk _)]
    rfl
  | .appendObject v k, ⟨hv, hk⟩ => by
    simp only [arrayTree, sliceArrayTree]
    rw [objectTree_plain v hv, arrayTree_plain (k (mapObjectTree v).2) (hk _)]
    rfl
  | .append (.prim p) k, ⟨hp, hk⟩ => by
    simp only [arrayTree, sliceArrayTree]
    rw [arrayTree_plain k hk, elemValue_plain rt cfg hp]
    rfl

end

end Plain

/-! ### Plain scripts write leaves -/

section Leaves

variable {rt : Runtime} {cfg : EncoderConfig}

/-- A plain value is written as a leaf under any runtime and configuration: neither a float nor
a time is formatted. -/
theorem elemLeaf_of_isPlain {p : Prim} (hp : p.isPlain) : ElemLeaf rt cfg (.prim p) := by
  have hleaf : Leaf (primText rt p) (primValue rt p) := by
    cases p <;> simp only [Prim.isPlain, Bool.false_eq_true] at hp
    · exact leaf_bool _
    · exact leaf_quoted_escaped _
    · exact leaf_decimal _
    · exact leaf_quoted_escaped _
    · exact leaf_decimal _
  refine ⟨fun spaced => ?_, fun spaced f => by simp [elemText, Json.sepText]⟩
  simpa [elemText, elemValue, Json.sepText] using hleaf

mutual

theorem leaves_of_plain : ∀ m : ObjectMarshaler, m.Plain → m.Leaves rt cfg
  | .ret _, _ => trivial
  | .addArray _ m k, ⟨hm, hk⟩ => ⟨leavesArray_of_plain m hm, fun e => leaves_of_plain (k e) (hk e)⟩
  | .addObject _ m k, ⟨hm, hk⟩ => ⟨leaves_of_plain m hm, fun e => leaves_of_plain (k e) (hk e)⟩
  | .add _ (.prim _) k, ⟨hp, hk⟩ => ⟨elemLeaf_of_isPlain hp, leaves_of_plain k hk⟩
  | .openNamespace _ k, hk => leaves_of_plain k hk

theorem leavesArray_of_plain : ∀ m : ArrayMarshaler, m.Plain → m.Leaves rt cfg
  | .ret _, _ => trivial
  | .appendArray m k, ⟨hm, hk⟩ =>
    ⟨leavesArray_of_plain m hm, fun e => leavesArray_of_plain (k e) (hk e)⟩
  | .appendObject m k, ⟨hm, hk⟩ =>
    ⟨leaves_of_plain m hm, fun e => leavesArray_of_plain (k e) (hk e)⟩
  | .append (.prim _) k, ⟨hp, hk⟩ => ⟨elemLeaf_of_isPlain hp, leavesArray_of_plain k hk⟩

end

end Leaves

/-- What a run from an empty encoder writes, its namespaces closed and wrapped in braces,
decodes to the object of the script's tree. -/
theorem decode_marshalObject {rt : Runtime} {cfg : EncoderConfig} {e₀ : JsonEncoder}
    (h0 : e₀.buf.bs = []) (hns : e₀.openNamespaces = 0) (hc : e₀.config = cfg)
    {m : ObjectMarshaler} (hm : m.Leaves rt cfg) :
    Json.decode (0x7B :: ((marshalObject rt m e₀).1.closeOpenNamespaces.buf.bs ++ [0x7D])) =
      some (.obj (objectTree rt cfg m).1) := by
  obtain ⟨T, k, hr⟩ := marshalObject_run m hm e₀ hc
  have hfirst : NoSep e₀.buf.bs = true := by rw [h0]; rfl
  have hm : Json.MembersRun true T k (objectTree rt cfg m).1 := hfirst ▸ hr.members
  have htext : (marshalObject rt m e₀).1.closeOpenNamespaces.buf.bs ++ [0x7D] =
      T ++ List.replicate (k + 1) 0x7D := by
    simp [closeOpenNamespaces, hr.buf, hr.openNamespaces, h0, hns, List.replicate_succ']
  rw [htext]
  exact (leaf_obj hm).text.decode

theorem decode_eq_mapObjectEncoder (rt : Runtime) (cfg : EncoderConfig) (spaced : Bool)
    (m : ObjectMarshaler) (hp : m.Plain)
    (hd : (MapValue.obj (mapObjectTree m).1).NodupKeys) :
    Json.decode (0x7B ::
        ((marshalObject rt m (newJSONEncoder rt cfg spaced)).1.closeOpenNamespaces.buf.bs ++
          [0x7D])) =
      some ((MapValue.obj (mapMarshalObject m NewMapObjectEncoder).1.Fields).toJson
        replaceInvalid) ∧
    (marshalObject rt m (newJSONEncoder rt cfg spaced)).2 =
      (mapMarshalObject m NewMapObjectEncoder).2 := by
  obtain ⟨hfields, herr⟩ := mapMarshalObject_fresh m hd
  have htree := objectTree_plain rt (newJSONEncoder rt cfg spaced).config m hp
  constructor
  · rw [decode_marshalObject rfl rfl rfl (leaves_of_plain m hp), hfields, htree]
    rfl
  · rw [marshalObject_err, herr, htree]

/-- A field, then a namespace holding a nested object. -/
def namespaceScript : ObjectMarshaler :=
  .add (ascii "a") (.prim (.int64 1)) <| .openNamespace (ascii "ns") <|
    .addObject (ascii "o") (.add (ascii "b") (.prim (.bool true)) (.ret none)) fun _ => .ret none

theorem decode_eq_mapObjectEncoder_namespace :
    Json.decode (0x7B ::
        ((marshalObject constRuntime namespaceScript
          (newJSONEncoder constRuntime sampleEncoderConfig false)).1.closeOpenNamespaces.buf.bs ++
          [0x7D])) =
      some ((MapValue.obj (mapMarshalObject namespaceScript NewMapObjectEncoder).1.Fields).toJson
        replaceInvalid) ∧
    (marshalObject constRuntime namespaceScript (newJSONEncoder constRuntime sampleEncoderConfig false)).2 =
      (mapMarshalObject namespaceScript NewMapObjectEncoder).2 :=
  decode_eq_mapObjectEncoder constRuntime sampleEncoderConfig false namespaceScript
    (by simp [namespaceScript, ObjectMarshaler.Plain, Prim.isPlain])
    (by
      simp only [namespaceScript, mapObjectTree, storedElem, MapValue.NodupKeys,
        MapValue.NodupKeysMembers]
      decide)

/-- `AddString("\xff", "x")`: a key that is not valid UTF-8. -/
def invalidKeyScript : ObjectMarshaler := .add [0xFF] (.prim (.string (ascii "x"))) (.ret none)

/-- The JSON text of `invalidKeyScript` decodes to the key U+FFFD, where the map encoder holds
the byte `0xFF`. -/
theorem decode_ne_mapObjectEncoder_invalid_key :
    Json.decode (0x7B ::
        ((marshalObject constRuntime invalidKeyScript
          (newJSONEncoder constRuntime sampleEncoderConfig false)).1.closeOpenNamespaces.buf.bs ++
          [0x7D])) ≠
      some ((MapValue.obj (mapMarshalObject invalidKeyScript NewMapObjectEncoder).1.Fields).toJson
        id) := by
  have hplain : invalidKeyScript.Plain := by simp [invalidKeyScript, ObjectMarshaler.Plain, Prim.isPlain]
  have hkey : replaceInvalid [0xFF] = [0xEF, 0xBF, 0xBD] := by decide
  have hx : replaceInvalid (ascii "x") = ascii "x" := by decide
  rw [decode_marshalObject rfl rfl rfl (leaves_of_plain _ hplain)]
  simp [invalidKeyScript, objectTree, elemValue, primValue, hkey, hx, mapMarshalObject,
    MapObjectEncoder.add, MapObjectEncoder.set, NewMapObjectEncoder, storedElem, mapSet,
    MapValue.toJson, MapValue.membersJson]

end JsonEncoder

end Lad
