import Lad.Ladcore.Encoder

/-!
# The map encoder

`MapObjectEncoder` keeps the fields a marshaler adds in a map, held as the list of its entries in
the order of the assignments (`mapSet`); `cur` is the path of namespace keys to the map being
written. A run from a fresh encoder leaves the tree read off its script (`mapObjectTree`) when no
key is added twice to one map (`mapMarshalObject_fresh`).
-/

namespace Lad

open Go

/-- A value the map encoder stores in a map or a slice. -/
inductive MapValue where
  /-- What an `Add` or `Append` method stores: its argument, a byte string as a `string`. -/
  | elem (v : Elem)
  /-- The `[]byte` of `AddBinary`. -/
  | binary (v : Array UInt8)
  | reflected (v : Iface)
  /-- A `map[string]interface{}`: a nested object or a namespace. -/
  | obj (fields : List (List UInt8 × MapValue))
  /-- A `[]interface{}`: an array. -/
  | arr (elems : List MapValue)

/-- A `map[string]interface{}`, as its entries. -/
abbrev GoMap := List (List UInt8 × MapValue)

/-- What the encoders store for a value method's argument: `AddByteString` and
`AppendByteString` store `string(v)`. -/
def storedElem : Elem → MapValue
  | .prim (.byteString v) => .elem (.prim (.string v.toList))
  | v => .elem v

/-- `m[k] = v`. -/
def mapSet (k : List UInt8) (v : MapValue) : GoMap → GoMap
  | [] => [(k, v)]
  | (k', v') :: m => if k' = k then (k, v) :: m else (k', v') :: mapSet k v m

theorem mapSet_of_not_mem {k : List UInt8} {C : GoMap} (h : k ∉ C.map Prod.fst) (v : MapValue) :
    mapSet k v C = C ++ [(k, v)] := by
  induction C with
  | nil => rfl
  | cons e C ih =>
    obtain ⟨k', v'⟩ := e
    simp only [List.map_cons, List.mem_cons, not_or] at h
    simp only [mapSet, if_neg (Ne.symm h.1), ih h.2, List.cons_append]

/-! ### Paths to nested maps -/

/-- Apply `g` to the map a value holds, if it is a map. -/
def MapValue.modifyObj (g : GoMap → GoMap) : MapValue → MapValue
  | .obj fs => .obj (g fs)
  | v => v

/-- Apply `f` to the map reached from `F` through the keys of `p`. -/
def modifyAt : List (List UInt8) → (GoMap → GoMap) → GoMap → GoMap
  | [], f, F => f F
  | k :: p, f, F => F.map fun e => if e.1 = k then (e.1, e.2.modifyObj (modifyAt p f)) else e

/-- The keys of `p` lead from the map `F` to the map `C`. -/
inductive PathTo : GoMap → List (List UInt8) → GoMap → Prop
  | nil (F : GoMap) : PathTo F [] F
  | cons {F inner C : GoMap} {k : List UInt8} {p : List (List UInt8)} :
      (k, .obj inner) ∈ F → PathTo inner p C → PathTo F (k :: p) C

@[simp] theorem modifyAt_nil (f : GoMap → GoMap) (F : GoMap) : modifyAt [] f F = f F := rfl

theorem modifyAt_id : ∀ (p : List (List UInt8)) (F : GoMap), modifyAt p (fun C => C) F = F
  | [], _ => rfl
  | k :: p, F => by
    have hid : ∀ v : MapValue, v.modifyObj (modifyAt p fun C => C) = v := by
      intro v
      cases v <;> simp [MapValue.modifyObj, funext (modifyAt_id p)]
    simp [modifyAt, hid]

theorem modifyObj_comp (g h : GoMap → GoMap) (v : MapValue) :
    (v.modifyObj h).modifyObj g = v.modifyObj (g ∘ h) := by
  cases v <;> rfl

theorem modifyAt_comp (g : GoMap → GoMap) : ∀ (p : List (List UInt8)) (f : GoMap → GoMap)
    (F : GoMap), modifyAt p g (modifyAt p f F) = modifyAt p (g ∘ f) F
  | [], _, _ => rfl
  | k :: p, f, F => by
    have hc : modifyAt p g ∘ modifyAt p f = modifyAt p (g ∘ f) :=
      funext fun F => modifyAt_comp g p f F
    simp only [modifyAt, List.map_map]
    refine List.map_congr_left fun e _ => ?_
    by_cases he : e.1 = k
    · simp [he, modifyObj_comp, hc]
    · simp [he]

theorem modifyAt_append (f : GoMap → GoMap) (q : List (List UInt8)) :
    ∀ (p : List (List UInt8)) (F : GoMap), modifyAt (p ++ q) f F = modifyAt p (modifyAt q f) F
  | [], _ => rfl
  | k :: p, F => by
    have hc : modifyAt (p ++ q) f = modifyAt p (modifyAt q f) :=
      funext fun F => modifyAt_append f q p F
    simp only [List.cons_append, modifyAt, hc]

/-- Only the maps the path reaches matter. -/
theorem modifyAt_congr {f g : GoMap → GoMap} :
    ∀ {p : List (List UInt8)} {F : GoMap}, (∀ C, PathTo F p C → f C = g C) →
      modifyAt p f F = modifyAt p g F
  | [], F, h => h F (.nil F)
  | k :: p, F, h => by
    simp only [modifyAt]
    refine List.map_congr_left fun e he => ?_
    obtain ⟨k', v⟩ := e
    by_cases hk : k' = k
    · subst hk
      cases v with
      | obj inner =>
        have hin := modifyAt_congr fun C hC => h C (.cons he hC)
        simp [MapValue.modifyObj, hin]
      | _ => rfl
    · simp [hk]

/-- What the path reaches after `modifyAt` is what `f` made of a map it reached before. -/
theorem PathTo.of_modifyAt {f : GoMap → GoMap} :
    ∀ {p : List (List UInt8)} {F C' : GoMap}, PathTo (modifyAt p f F) p C' →
      ∃ C, PathTo F p C ∧ C' = f C
  | [], F, _, .nil _ => ⟨F, .nil F, rfl⟩
  | k :: p, F, C', .cons hmem hC => by
    simp only [modifyAt, List.mem_map] at hmem
    obtain ⟨⟨k', v⟩, hv, he⟩ := hmem
    by_cases hk : k' = k
    · subst hk
      cases v with
      | obj inner =>
        simp only [if_pos, MapValue.modifyObj, Prod.mk.injEq, MapValue.obj.injEq] at he
        obtain ⟨-, rfl⟩ := he
        obtain ⟨C, hC', rfl⟩ := PathTo.of_modifyAt hC
        exact ⟨C, .cons hv hC', rfl⟩
      | _ => simp [MapValue.modifyObj] at he
    · simp only [if_neg hk, Prod.mk.injEq] at he
      exact absurd he.1 hk

theorem PathTo.append_inv : ∀ {p : List (List UInt8)} {F X : GoMap} {k : List UInt8},
    PathTo F (p ++ [k]) X → ∃ C, PathTo F p C ∧ PathTo C [k] X
  | [], F, _, _, h => ⟨F, .nil F, h⟩
  | _ :: _, _, _, _, .cons hmem h => by
    obtain ⟨C, hC, hX⟩ := PathTo.append_inv h
    exact ⟨C, .cons hmem hC, hX⟩

/-- A key added last, to a map that did not have it, leads to the map stored under it. -/
theorem pathTo_append_last {C inner X : GoMap} {k : List UInt8} (hk : k ∉ C.map Prod.fst)
    (h : PathTo (C ++ [(k, .obj inner)]) [k] X) : X = inner := by
  cases h with
  | cons hmem hX =>
    cases hX
    rcases List.mem_append.1 hmem with hC | hl
    · exact absurd (List.mem_map_of_mem (f := Prod.fst) hC) hk
    · simp only [List.mem_singleton, Prod.mk.injEq, MapValue.obj.injEq] at hl
      exact hl.2

theorem modifyAt_append_last {C : GoMap} {k : List UInt8} (hk : k ∉ C.map Prod.fst)
    (f : GoMap → GoMap) (inner : GoMap) :
    modifyAt [k] f (C ++ [(k, .obj inner)]) = C ++ [(k, .obj (f inner))] := by
  have hC : C.map (fun e => if e.1 = k then (e.1, e.2.modifyObj (modifyAt [] f)) else e) = C := by
    conv_rhs => rw [← List.map_id C]
    refine List.map_congr_left fun e he => if_neg ?_
    rintro rfl
    exact hk (List.mem_map_of_mem he)
  rw [modifyAt, List.map_append, hC]
  simp [MapValue.modifyObj]

/-! ### The encoders -/

/-- `MapObjectEncoder`: `Fields` and the keys of the namespaces that lead to `cur`. -/
structure MapObjectEncoder where
  Fields : GoMap
  cur : List (List UInt8)

structure SliceArrayEncoder where
  elems : List MapValue

/-- `NewMapObjectEncoder()`: `cur` is `Fields`. -/
def NewMapObjectEncoder : MapObjectEncoder := ⟨[], []⟩

namespace MapObjectEncoder

/-- `m.cur[k] = v`. -/
def set (m : MapObjectEncoder) (k : List UInt8) (v : MapValue) : MapObjectEncoder :=
  { m with Fields := modifyAt m.cur (mapSet k v) m.Fields }

/-- `AddArray`: the marshaler fills a new slice, stored under the key after it ran, with its
error. -/
def AddArray (m : MapObjectEncoder) (key : List UInt8)
    (run : SliceArrayEncoder → SliceArrayEncoder × Option Err) : MapObjectEncoder × Option Err :=
  let arr := run ⟨[]⟩
  (m.set key (.arr arr.1.elems), arr.2)

/-- `AddObject`: the key holds the new map, which the marshaler then fills; a map is a reference,
so storing it filled is the same. -/
def AddObject (m : MapObjectEncoder) (k : List UInt8)
    (run : MapObjectEncoder → MapObjectEncoder × Option Err) : MapObjectEncoder × Option Err :=
  let newMap := run NewMapObjectEncoder
  (m.set k (.obj newMap.1.Fields), newMap.2)

def AddBinary (m : MapObjectEncoder) (k : List UInt8) (v : Array UInt8) : MapObjectEncoder :=
  m.set k (.binary v)

/-- `AddBool`, `AddByteString`, `AddInt64`, `AddString`, `AddDuration`, `AddTime`, ... -/
def add (m : MapObjectEncoder) (k : List UInt8) (v : Elem) : MapObjectEncoder :=
  m.set k (storedElem v)

/-- `AddReflected` stores the value and never fails. -/
def AddReflected (m : MapObjectEncoder) (k : List UInt8) (v : Iface) :
    MapObjectEncoder × Option Err :=
  (m.set k (.reflected v), none)

/-- `OpenNamespace`: a new map under the key, which becomes `cur`. -/
def OpenNamespace (m : MapObjectEncoder) (k : List UInt8) : MapObjectEncoder :=
  ⟨modifyAt m.cur (mapSet k (.obj [])) m.Fields, m.cur ++ [k]⟩

end MapObjectEncoder

namespace SliceArrayEncoder

/-- `AppendArray`: the elements a marshaler appends to a new slice, then the slice. -/
def AppendArray (s : SliceArrayEncoder)
    (run : SliceArrayEncoder → SliceArrayEncoder × Option Err) : SliceArrayEncoder × Option Err :=
  let enc := run ⟨[]⟩
  (⟨s.elems ++ [.arr enc.1.elems]⟩, enc.2)

/-- `AppendObject`: the fields a marshaler adds to a new map encoder, then its `Fields`. -/
def AppendObject (s : SliceArrayEncoder)
    (run : MapObjectEncoder → MapObjectEncoder × Option Err) : SliceArrayEncoder × Option Err :=
  let m := run NewMapObjectEncoder
  (⟨s.elems ++ [.obj m.1.Fields]⟩, m.2)

/-- `AppendBool`, `AppendByteString`, `AppendInt64`, `AppendString`, ... -/
def append (s : SliceArrayEncoder) (v : Elem) : SliceArrayEncoder := ⟨s.elems ++ [storedElem v]⟩

/-- `AppendReflected` appends the value and never fails. -/
def AppendReflected (s : SliceArrayEncoder) (v : Iface) : SliceArrayEncoder × Option Err :=
  (⟨s.elems ++ [.reflected v]⟩, none)

end SliceArrayEncoder

mutual

/-- `MarshalLogObject` run with a map encoder. -/
def mapMarshalObject : ObjectMarshaler → MapObjectEncoder → MapObjectEncoder × Option Err
  | .ret err, m => (m, err)
  | .addArray key v k, m =>
    let r := m.AddArray key fun s => sliceMarshalArray v s
    mapMarshalObject (k r.2) r.1
  | .addObject key v k, m =>
    let r := m.AddObject key fun n => mapMarshalObject v n
    mapMarshalObject (k r.2) r.1
  | .addBinary key v k, m => mapMarshalObject k (m.AddBinary key v)
  | .add key v k, m => mapMarshalObject k (m.add key v)
  | .addReflected key v k, m =>
    let r := m.AddReflected key v
    mapMarshalObject (k r.2) r.1
  | .openNamespace key k, m => mapMarshalObject k (m.OpenNamespace key)

/-- `MarshalLogArray` run with a slice encoder. -/
def sliceMarshalArray : ArrayMarshaler → SliceArrayEncoder → SliceArrayEncoder × Option Err
  | .ret err, s => (s, err)
  | .appendArray v k, s =>
    let r := s.AppendArray fun t => sliceMarshalArray v t
    sliceMarshalArray (k r.2) r.1
  | .appendObject v k, s =>
    let r := s.AppendObject fun n => mapMarshalObject v n
    sliceMarshalArray (k r.2) r.1
  | .append v k, s => sliceMarshalArray k (s.append v)
  | .appendReflected v k, s =>
    let r := s.AppendReflected v
    sliceMarshalArray (k r.2) r.1

end

/-! ### What a script stores -/

mutual

/-- The entries a run of `m` adds to the map it runs in, and the error it returns. -/
def mapObjectTree : ObjectMarshaler → GoMap × Option Err
  | .ret err => ([], err)
  | .addArray key v k =>
    let r := sliceArrayTree v
    let s := mapObjectTree (k r.2)
    ((key, .arr r.1) :: s.1, s.2)
  | .addObject key v k =>
    let r := mapObjectTree v
    let s := mapObjectTree (k r.2)
    ((key, .obj r.1) :: s.1, s.2)
  | .addBinary key v k =>
    let s := mapObjectTree k
    ((key, .binary v) :: s.1, s.2)
  | .add key v k =>
    let s := mapObjectTree k
    ((key, storedElem v) :: s.1, s.2)
  | .addReflected key v k =>
    let s := mapObjectTree (k none)
    ((key, .reflected v) :: s.1, s.2)
  | .openNamespace key k =>
    -- everything after the namespace goes into its map
    let s := mapObjectTree k
    ([(key, .obj s.1)], s.2)

/-- The elements a run of `m` appends to the slice it runs in, and the error it returns. -/
def sliceArrayTree : ArrayMarshaler → List MapValue × Option Err
  | .ret err => ([], err)
  | .appendArray v k =>
    let r := sliceArrayTree v
    let s := sliceArrayTree (k r.2)
    (.arr r.1 :: s.1, s.2)
  | .appendObject v k =>
    let r := mapObjectTree v
    let s := sliceArrayTree (k r.2)
    (.obj r.1 :: s.1, s.2)
  | .append v k =>
    let s := sliceArrayTree k
    (storedElem v :: s.1, s.2)
  | .appendReflected v k =>
    let s := sliceArrayTree (k none)
    (.reflected v :: s.1, s.2)

end

mutual

/-- No key is in a map twice, at any depth. -/
def MapValue.NodupKeys : MapValue → Prop
  | .obj fs => (fs.map Prod.fst).Nodup ∧ MapValue.NodupKeysMembers fs
  | .arr vs => MapValue.NodupKeysElems vs
  | _ => True

/-- No key is in a map twice, in the values of the entries. -/
def MapValue.NodupKeysMembers : GoMap → Prop
  | [] => True
  | (_, v) :: fs => v.NodupKeys ∧ MapValue.NodupKeysMembers fs

/-- No key is in a map twice, in the elements. -/
def MapValue.NodupKeysElems : List MapValue → Prop
  | [] => True
  | v :: vs => v.NodupKeys ∧ MapValue.NodupKeysElems vs

end

/-! ### A run stores what its script describes -/

/-- The entries `T` are new to every map the encoder may be writing to, and distinct. -/
def FreshFor (m : MapObjectEncoder) (T : GoMap) : Prop :=
  ∀ C, PathTo m.Fields m.cur C → ((C ++ T).map Prod.fst).Nodup

theorem FreshFor.not_mem {m : MapObjectEncoder} {key : List UInt8} {v : MapValue} {T : GoMap}
    (hf : FreshFor m ((key, v) :: T)) {C : GoMap} (hC : PathTo m.Fields m.cur C) :
    key ∉ C.map Prod.fst := by
  have h := hf C hC
  simp only [List.map_append, List.map_cons, List.nodup_append, List.mem_cons] at h
  exact fun hk => h.2.2 key hk key (Or.inl rfl) rfl

theorem freshFor_new {T : GoMap} (hT : (T.map Prod.fst).Nodup) : FreshFor NewMapObjectEncoder T := by
  rintro C ⟨⟩
  simpa [NewMapObjectEncoder] using hT

/-- An entry whose key is new goes last. -/
theorem set_fields {m : MapObjectEncoder} {key : List UInt8} {v : MapValue} {T : GoMap}
    (hf : FreshFor m ((key, v) :: T)) :
    (m.set key v).Fields = modifyAt m.cur (· ++ [(key, v)]) m.Fields :=
  modifyAt_congr fun _ hC => mapSet_of_not_mem (hf.not_mem hC) v

theorem FreshFor.set {m : MapObjectEncoder} {key : List UInt8} {v : MapValue} {T : GoMap}
    (hf : FreshFor m ((key, v) :: T)) : FreshFor (m.set key v) T := by
  intro C' hC'
  rw [set_fields hf] at hC'
  obtain ⟨C, hC, rfl⟩ := PathTo.of_modifyAt hC'
  simpa using hf C hC

/-- After a namespace whose key is new, the run goes into its empty map. -/
theorem FreshFor.openNamespace {m : MapObjectEncoder} {key : List UInt8} {T : GoMap}
    (hf : FreshFor m [(key, .obj T)]) (hT : (T.map Prod.fst).Nodup) :
    FreshFor (m.OpenNamespace key) T := by
  intro X hX
  obtain ⟨C', hC', hX⟩ := PathTo.append_inv hX
  obtain ⟨C, hC, rfl⟩ := PathTo.of_modifyAt hC'
  have hk := hf.not_mem hC
  rw [mapSet_of_not_mem hk] at hX
  rw [pathTo_append_last hk hX]
  simpa using hT

/-- An entry, then the run of the rest of the script from after it. -/
theorem entry_then {enc : MapObjectEncoder} {key : List UInt8} {v : MapValue} {T : GoMap}
    {r : MapObjectEncoder × Option Err} {err : Option Err} (hf : FreshFor enc ((key, v) :: T))
    (h : r.1.Fields = modifyAt (enc.set key v).cur (· ++ T) (enc.set key v).Fields ∧ r.2 = err) :
    r.1.Fields = modifyAt enc.cur (· ++ (key, v) :: T) enc.Fields ∧ r.2 = err := by
  refine ⟨?_, h.2⟩
  rw [h.1, set_fields hf]
  simp only [MapObjectEncoder.set, modifyAt_comp]
  exact modifyAt_congr fun C _ => by simp

/-- A namespace, then the run that fills its map. -/
theorem namespace_then {enc : MapObjectEncoder} {key : List UInt8} {T : GoMap}
    {r : MapObjectEncoder × Option Err} {err : Option Err} (hf : FreshFor enc [(key, .obj T)])
    (h : r.1.Fields = modifyAt (enc.OpenNamespace key).cur (· ++ T)
      (enc.OpenNamespace key).Fields ∧ r.2 = err) :
    r.1.Fields = modifyAt enc.cur (· ++ [(key, .obj T)]) enc.Fields ∧ r.2 = err := by
  refine ⟨?_, h.2⟩
  rw [h.1]
  simp only [MapObjectEncoder.OpenNamespace, modifyAt_append, modifyAt_comp]
  refine modifyAt_congr fun C hC => ?_
  have hk := hf.not_mem hC
  simp only [Function.comp, mapSet_of_not_mem hk, modifyAt_append_last hk, List.nil_append]

mutual

/-- A run of an object marshaler adds the entries of its script to `cur`, when no key is added
twice to one map. -/
theorem mapMarshalObject_tree : ∀ (m : ObjectMarshaler) (enc : MapObjectEncoder),
    FreshFor enc (mapObjectTree m).1 → MapValue.NodupKeysMembers (mapObjectTree m).1 →
      (mapMarshalObject m enc).1.Fields = modifyAt enc.cur (· ++ (mapObjectTree m).1) enc.Fields ∧
        (mapMarshalObject m enc).2 = (mapObjectTree m).2
  | .ret _, enc, _, _ => ⟨by simp [mapMarshalObject, mapObjectTree, modifyAt_id], rfl⟩
  | .addArray key v k, enc, hf, hd => by
    simp only [mapObjectTree, MapValue.NodupKeysMembers, MapValue.NodupKeys] at hf hd
    obtain ⟨hv, hk⟩ := sliceMarshalArray_tree v ⟨[]⟩ hd.1
    simp only [mapMarshalObject, MapObjectEncoder.AddArray, hv, hk, List.nil_append]
    exact entry_then hf (mapMarshalObject_tree (k _) _ hf.set hd.2)
  | .addObject key v k, enc, hf, hd => by
    simp only [mapObjectTree, MapValue.NodupKeysMembers, MapValue.NodupKeys] at hf hd
    obtain ⟨hv, hk⟩ := mapMarshalObject_tree v NewMapObjectEncoder (freshFor_new hd.1.1) hd.1.2
    simp only [mapMarshalObject, MapObjectEncoder.AddObject, hv, hk]
    exact entry_then hf (mapMarshalObject_tree (k _) _ hf.set hd.2)
  | .addBinary key v k, enc, hf, hd => by
    simp only [mapObjectTree, MapValue.NodupKeysMembers] at hf hd
    exact entry_then hf (mapMarshalObject_tree k _ hf.set hd.2)
  | .add key v k, enc, hf, hd => by
    simp only [mapObjectTree, MapValue.NodupKeysMembers] at hf hd
    exact entry_then hf (mapMarshalObject_tree k _ hf.set hd.2)
  | .addReflected key v k, enc, hf, hd => by
    simp only [mapObjectTree, MapValue.NodupKeysMembers] at hf hd
    exact entry_then hf (mapMarshalObject_tree (k none) _ hf.set hd.2)
  | .openNamespace key k, enc, hf, hd => by
    simp only [mapObjectTree, MapValue.NodupKeysMembers, MapValue.NodupKeys] at hf hd
    exact namespace_then hf
      (mapMarshalObject_tree k _ (hf.openNamespace hd.1.1) hd.1.2)

/-- A run of an array marshaler appends the elements of its script. -/
theorem sliceMarshalArray_tree : ∀ (m : ArrayMarshaler) (s : SliceArrayEncoder),
    MapValue.NodupKeysElems (sliceArrayTree m).1 →
      (sliceMarshalArray m s).1.elems = s.elems ++ (sliceArrayTree m).1 ∧
        (sliceMarshalArray m s).2 = (sliceArrayTree m).2
  | .ret _, s, _ => ⟨by simp [sliceMarshalArray, sliceArrayTree], rfl⟩
  | .appendArray v k, s, hd => by
    simp only [sliceArrayTree, MapValue.NodupKeysElems, MapValue.NodupKeys] at hd
    obtain ⟨hv, hk⟩ := sliceMarshalArray_tree v ⟨[]⟩ hd.1
    obtain ⟨hs, hks⟩ := sliceMarshalArray_tree (k (sliceArrayTree v).2)
      ⟨s.elems ++ [.arr (sliceArrayTree v).1]⟩ hd.2
    simp only [sliceMarshalArray, SliceArrayEncoder.AppendArray, hv, hk, List.nil_append]
    simp [sliceArrayTree, hs, hks]
  | .appendObject v k, s, hd => by
    simp only [sliceArrayTree, MapValue.NodupKeysElems, MapValue.NodupKeys] at hd
    obtain ⟨hv, hk⟩ := mapMarshalObject_tree v NewMapObjectEncoder (freshFor_new hd.1.1) hd.1.2
    obtain ⟨hs, hks⟩ := sliceMarshalArray_tree (k (mapObjectTree v).2)
      ⟨s.elems ++ [.obj (mapObjectTree v).1]⟩ hd.2
    simp only [sliceMarshalArray, SliceArrayEncoder.AppendObject, hv, hk]
    simp [sliceArrayTree, NewMapObjectEncoder, hs, hks]
  | .append v k, s, hd => by
    simp only [sliceArrayTree, MapValue.NodupKeysElems] at hd
    obtain ⟨hs, hks⟩ := sliceMarshalArray_tree k ⟨s.elems ++ [storedElem v]⟩ hd.2
    simp [sliceMarshalArray, sliceArrayTree, hs, hks, SliceArrayEncoder.append]
  | .appendReflected v k, s, hd => by
    simp only [sliceArrayTree, MapValue.NodupKeysElems] at hd
    obtain ⟨hs, hks⟩ := sliceMarshalArray_tree (k none) ⟨s.elems ++ [.reflected v]⟩ hd.2
    simp [sliceMarshalArray, sliceArrayTree, SliceArrayEncoder.AppendReflected, hs, hks]

end

/-- From a fresh encoder, a run leaves in `Fields` the entries of its script. -/
theorem mapMarshalObject_fresh (m : ObjectMarshaler)
    (hd : (MapValue.obj (mapObjectTree m).1).NodupKeys) :
    (mapMarshalObject m NewMapObjectEncoder).1.Fields = (mapObjectTree m).1 ∧
      (mapMarshalObject m NewMapObjectEncoder).2 = (mapObjectTree m).2 := by
  simpa [NewMapObjectEncoder] using
    mapMarshalObject_tree m NewMapObjectEncoder (freshFor_new hd.1) hd.2

end Lad
