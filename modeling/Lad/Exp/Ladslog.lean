import Lad.Sugar
import Lad.Ladcore.Entry

/-!
# The `slog` handler of package `ladslog`

`Handler` turns `log/slog` attrs into lad fields. `WithGroup` records a group, and pending
groups become `Namespace` fields before the first converted field of a later `WithAttrs` or
`Handle` that is not `Skip()`. Over any run each group is opened once, in order
(`run_Handle_groups`); a group whose members are all empty is still written
(`Handle_empty_group`).
-/

namespace Lad

open Go

/-! ### `log/slog` -/

namespace slog

mutual
/-- A `slog.Value`, by its kind. A `LogValuer` is given by the name of its type and the value
its `LogValue` returns. -/
inductive Value where
  | any (v : Iface)
  | bool (b : Bool)
  | duration (d : Int)
  | float64 (bits : UInt64)
  | int64 (i : Int)
  | string (s : List UInt8)
  | time (t : Go.Time)
  | uint64 (u : UInt64)
  | group (as : List Attr)
  | logValuer (typeName : List UInt8) (v : Value)

/-- A `slog.Attr`: a key and a value. -/
inductive Attr where
  | mk (key : List UInt8) (value : Value)
end

def Attr.value : Attr → Value
  | .mk _ v => v

/-- `slog.Attr{}`: no key, and a nil value of kind `KindAny`. -/
def Attr.empty : Attr := .mk [] (.any .nil)

/-- `attr.Equal(slog.Attr{})`. Against the zero attr, `Value.Equal` compares only the `any` of a
value of kind `KindAny` with nil, which cannot panic. -/
def Attr.isEmpty : Attr → Bool
  | .mk [] (.any .nil) => true
  | _ => false

/-- `Value.isEmptyGroup`: a group with no attrs. `GroupValue` has already taken the empty groups
out of its members, so they need not be looked at. -/
def Value.isEmptyGroup : Value → Bool
  | .group [] => true
  | _ => false

/-- `GroupValue(as...)`: the attrs that are not empty groups. -/
def GroupValue (as : List Attr) : Value := .group (as.filter fun a => !a.value.isEmptyGroup)

/-- `Group(key, as...)`, for arguments that are all attrs. -/
def Group (key : List UInt8) (as : List Attr) : Attr := .mk key (GroupValue as)

/-- `LevelInfo`, `LevelWarn` and `LevelError`. -/
def LevelInfo : Int := 0
def LevelWarn : Int := 4
def LevelError : Int := 8

/-- `slog.Record`, with its attrs in the order `Record.Attrs` calls its function on them; its
program counter is left out. -/
structure Record where
  Time : Go.Time
  Message : List UInt8
  Level : Int
  attrs : List Attr

/-- `NewRecord(t, level, msg, pc)`: no attrs yet. -/
def NewRecord (t : Go.Time) (level : Int) (msg : List UInt8) : Record := ⟨t, msg, level, []⟩

/-- `Record.AddAttrs(attrs...)`: the attrs appended, the empty groups left out. -/
def Record.AddAttrs (r : Record) (attrs : List Attr) : Record :=
  { r with attrs := r.attrs ++ attrs.filter fun a => !a.value.isEmptyGroup }

/-- `maxLogValues`: how many times `Resolve` calls `LogValue` before it gives up. -/
def maxLogValues : Nat := 100

/-- The error `Resolve` returns after `maxLogValues` calls, naming the type of the first value. -/
def tooManyLogValues (typeName : List UInt8) : GoError :=
  .basic (ascii "LogValue called too many times on Value of type " ++ typeName)

/-- The loop of `Value.Resolve`, at its `i`-th turn: a value that is not a `LogValuer` is the
result; otherwise `LogValue` is called, as long as fewer than `maxLogValues` turns are done. -/
def Value.resolveLoop (orig : List UInt8) : Nat → Value → Value
  | i, .logValuer _ v =>
    if i + 1 < maxLogValues then resolveLoop orig (i + 1) v else .any (.error (tooManyLogValues orig))
  | _, v => v

def Value.Resolve : Value → Value
  | .logValuer typeName v => (Value.logValuer typeName v).resolveLoop typeName 0
  | v => v

mutual
/-- The size of a value, counting every `LogValuer` and every attr of a group. -/
def Value.size : Value → Nat
  | .group as => Attr.sizes as + 1
  | .logValuer _ v => v.size + 1
  | _ => 1

/-- The size of an attr: that of its value. -/
def Attr.size : Attr → Nat
  | .mk _ v => v.size

/-- The size of a list of attrs. -/
def Attr.sizes : List Attr → Nat
  | [] => 0
  | a :: as => a.size + Attr.sizes as + 1
end

theorem Value.resolveLoop_size (orig : List UInt8) :
    ∀ (i : Nat) (v : Value), (v.resolveLoop orig i).size ≤ v.size
  | i, .logValuer _ v => by
    have ih := resolveLoop_size orig (i + 1) v
    unfold resolveLoop
    split
    · simp only [size]
      omega
    · simp only [size]
      omega
  | _, .any _ | _, .bool _ | _, .duration _ | _, .float64 _ | _, .int64 _ | _, .string _
  | _, .time _ | _, .uint64 _ | _, .group _ => by simp [resolveLoop]

/-- Resolving a `LogValuer` gives a smaller value. -/
theorem Value.Resolve_size_lt (typeName : List UInt8) (v : Value) :
    (Value.logValuer typeName v).Resolve.size < (Value.logValuer typeName v).size := by
  have hle := v.resolveLoop_size typeName (0 + 1)
  rw [Resolve, resolveLoop, if_pos (by decide : 0 + 1 < maxLogValues)]
  simp only [size]
  omega

end slog

/-! ### Field constructors of package `lad` -/

def lad.Bool (key : List UInt8) (val : Bool) : Field :=
  ⟨key, .boolType, if val then 1 else 0, [], .nil⟩

def lad.Duration (key : List UInt8) (val : Int) : Field := ⟨key, .durationType, val, [], .nil⟩

/-- `lad.Float64(key, val)`, for the bits of `val`: `int64(math.Float64bits(val))`. -/
def lad.Float64 (key : List UInt8) (val : UInt64) : Field :=
  ⟨key, .float64Type, truncInt 64 val.toNat, [], .nil⟩

def lad.Int64 (key : List UInt8) (val : Int) : Field := ⟨key, .int64Type, val, [], .nil⟩

def lad.String (key : List UInt8) (val : List UInt8) : Field := ⟨key, .stringType, 0, val, .nil⟩

/-- `lad.Uint64(key, val)`: `int64(val)`. -/
def lad.Uint64 (key : List UInt8) (val : UInt64) : Field :=
  ⟨key, .uint64Type, truncInt 64 val.toNat, [], .nil⟩

def lad.Namespace (key : List UInt8) : Field := ⟨key, .namespaceType, 0, [], .nil⟩

/-- `f == lad.Skip()`. Go compares the members in order; those of `Skip()` are all comparable
and its interface is nil, so the comparison cannot panic. -/
def Field.isSkip : Field → Bool
  | ⟨[], .skipType, 0, [], .nil⟩ => true
  | _ => false

/-- The keys of the namespaces among some fields, in order. -/
def namespaces (fields : List Field) : List (List UInt8) :=
  fields.filterMap fun f => if f.type = .namespaceType then some f.key else none

@[simp] theorem namespaces_nil : namespaces [] = [] := rfl

@[simp] theorem namespaces_append (A B : List Field) :
    namespaces (A ++ B) = namespaces A ++ namespaces B := by
  simp [namespaces]

@[simp] theorem namespaces_map_Namespace (groups : List (List UInt8)) :
    namespaces (groups.map lad.Namespace) = groups := by
  induction groups with
  | nil => rfl
  | cons g groups ih => simpa [namespaces, lad.Namespace] using ih

namespace ladslog

open slog

/-- `Handler`: the fields given to its core's `With` so far, in order, the logger's name, and the
groups not applied yet. The caller and stack options are left out. -/
structure Handler where
  context : List Field
  name : List UInt8
  groups : List (List UInt8)

/-- `NewHandler(core)`, with no options. -/
def NewHandler : Handler := ⟨[], [], []⟩

/-- `convertSlogLevel`: slog levels to lad levels, by the range each falls in. -/
def convertSlogLevel (l : Int) : Level :=
  if l ≥ slog.LevelError then ErrorLevel
  else if l ≥ slog.LevelWarn then WarnLevel
  else if l ≥ slog.LevelInfo then InfoLevel
  else DebugLevel

section convert

variable (Any : List UInt8 → Iface → Field)

mutual
/-- `convertAttrToField(attr)`; `lad.Any` is the parameter `Any`. The field of a group carries
what its `groupObject` does when it is marshaled, so it is `none` where that panics. -/
def convertAttrToField : Attr → Option Field
  | .mk key v =>
    if (Attr.mk key v).isEmpty then some lad.Skip
    else
      match v with
      | .bool b => some (lad.Bool key b)
      | .duration d => some (lad.Duration key d)
      | .float64 f => some (lad.Float64 key f)
      | .int64 i => some (lad.Int64 key i)
      | .string s => some (lad.String key s)
      | .time t => some (lad.Time key t)
      | .uint64 u => some (lad.Uint64 key u)
      | .group as =>
        (groupObject as).map fun m => if key = [] then lad.Inline m else lad.Object key m
      | .logValuer typeName w => convertAttrToField (.mk key (Value.logValuer typeName w).Resolve)
      | .any a => some (Any key a)
termination_by attr => attr.size
decreasing_by
  · simp only [Attr.size, Value.size]
    omega
  · simpa only [Attr.size] using Value.Resolve_size_lt typeName w

/-- `groupObject.MarshalLogObject`: `AddTo` of the field of each attr in turn, then `nil`. -/
def groupObject : List Attr → Option ObjectMarshaler
  | [] => some (.ret none)
  | attr :: attrs => do
    let f ← convertAttrToField attr
    let m ← f.addTo
    let rest ← groupObject attrs
    pure (m.bind fun _ => rest)
termination_by attrs => Attr.sizes attrs
decreasing_by
  · simp only [Attr.sizes]
    omega
  · simp only [Attr.sizes]
    omega
end

@[simp] theorem convertAttrToField_empty : convertAttrToField Any Attr.empty = some lad.Skip := by
  rw [Attr.empty, convertAttrToField]
  rfl

/-- A group attr that is not empty is an object of what its members write, inlined when its key
is empty. -/
theorem convertAttrToField_group (key : List UInt8) (as : List Attr) :
    convertAttrToField Any (.mk key (.group as)) =
      (groupObject Any as).map fun m => if key = [] then lad.Inline m else lad.Object key m := by
  rw [convertAttrToField, if_neg (by cases key <;> simp [Attr.isEmpty])]

@[simp] theorem convertAttrToField_string (key s : List UInt8) :
    convertAttrToField Any (.mk key (.string s)) = some (lad.String key s) := by
  rw [convertAttrToField, if_neg (by cases key <;> simp [Attr.isEmpty])]

/-- `groupObject` writes what `addFields` writes of its members' fields. -/
theorem groupObject_eq (as : List Attr) :
    groupObject Any as = (as.mapM (convertAttrToField Any)).bind addFields := by
  induction as with
  | nil => simp [groupObject, addFields]
  | cons attr as ih =>
    rw [groupObject, List.mapM_cons]
    cases convertAttrToField Any attr with
    | none => rfl
    | some f =>
      simp only [ih]
      cases as.mapM (convertAttrToField Any) <;> simp [addFields]

end convert

section handler

variable (Any : List UInt8 → Iface → Field)

/-- `appendGroups`: a `Namespace` field for each pending group, in order. -/
def Handler.appendGroups (h : Handler) (fields : List Field) : List Field :=
  fields ++ h.groups.map lad.Namespace

/-- The loop over the attrs in `Handle` and `WithAttrs`: each attr converted and appended, and
the pending groups appended before the first field that is not `Skip()`; with whether they were. -/
def Handler.attrsLoop (h : Handler) : List Field → Bool → List Attr → Option (List Field × Bool)
  | fields, addedNamespace, [] => some (fields, addedNamespace)
  | fields, addedNamespace, attr :: attrs => do
    let f ← convertAttrToField Any attr
    if !addedNamespace && !h.groups.isEmpty && !f.isSkip then
      h.attrsLoop (h.appendGroups fields ++ [f]) true attrs
    else
      h.attrsLoop (fields ++ [f]) addedNamespace attrs

/-- The entry `Handle` gives the core's `Check`; its caller and stack are set afterwards. -/
def Handler.entry (h : Handler) (record : Record) : Entry :=
  { level := convertSlogLevel record.Level, time := record.Time, loggerName := h.name,
    message := record.Message, caller := ⟨false, 0, [], 0, []⟩, stack := [] }

/-- `Handle(ctx, record)` once the core's `Check` has accepted the entry: the entry and the fields
given to `Write`; `none` where converting an attr panics. -/
def Handler.Handle (h : Handler) (record : Record) : Option (Entry × List Field) := do
  let (fields, _) ← h.attrsLoop Any [] false record.attrs
  pure (h.entry record, fields)

/-- `WithAttrs(attrs)`: the fields go to the core's `With`, and the groups are cleared when their
namespaces were added. -/
def Handler.WithAttrs (h : Handler) (attrs : List Attr) : Option Handler := do
  let (fields, addedNamespace) ← h.attrsLoop Any [] false attrs
  pure { h with context := h.context ++ fields, groups := if addedNamespace then [] else h.groups }

end handler

def Handler.WithGroup (h : Handler) (group : List UInt8) : Handler :=
  { h with groups := h.groups ++ [group] }

section spec

variable (Any : List UInt8 → Iface → Field)

/-- Where the pending groups' namespaces go among converted fields: before the first that is not
`Skip()`. -/
def insertGroups (groups : List (List UInt8)) (fs : List Field) : List Field :=
  fs.takeWhile Field.isSkip ++ groups.map lad.Namespace ++ fs.dropWhile Field.isSkip

/-- The loop converts every attr, in order; the pending groups' namespaces stand before the first
field that is not `Skip()`, when there is one and they were not added before. -/
theorem Handler.attrsLoop_eq (h : Handler) (attrs : List Attr) :
    ∀ (fields : List Field) (added : Bool), h.attrsLoop Any fields added attrs =
      (attrs.mapM (convertAttrToField Any)).map fun fs =>
        if !added && !h.groups.isEmpty && fs.any (fun f => !f.isSkip) then
          (fields ++ insertGroups h.groups fs, true)
        else (fields ++ fs, added) := by
  induction attrs with
  | nil =>
    intro fields added
    simp [attrsLoop]
  | cons attr attrs ih =>
    intro fields added
    rw [List.mapM_cons]
    cases hf : convertAttrToField Any attr with
    | none => simp [attrsLoop, hf]
    | some f =>
      simp only [attrsLoop, hf, Option.bind_eq_bind, Option.bind_some, ih]
      cases attrs.mapM (convertAttrToField Any) with
      | none => simp
      | some fs =>
        -- the first field that is not `Skip()` takes the groups before it; a `Skip()` field
        -- before it stays in front
        cases added <;> cases hg : h.groups.isEmpty <;> cases hs : f.isSkip <;>
          simp [insertGroups, Handler.appendGroups, hs]

/-- `Handle` writes the record's converted attrs, with the pending groups' namespaces before the
first that is not `Skip()`. -/
theorem Handler.Handle_eq (h : Handler) (record : Record) :
    h.Handle Any record = (record.attrs.mapM (convertAttrToField Any)).map fun fs =>
      (h.entry record,
        if !h.groups.isEmpty && fs.any (fun f => !f.isSkip) then insertGroups h.groups fs else fs) := by
  rw [Handle, attrsLoop_eq]
  cases record.attrs.mapM (convertAttrToField Any) with
  | none => rfl
  | some fs =>
    simp only [Option.map_some, Bool.not_false, Bool.true_and]
    split <;> rfl

/-- The calls a handler takes before it handles a record. -/
inductive Op where
  | withGroup (group : List UInt8)
  | withAttrs (attrs : List Attr)

/-- The groups a call opens. -/
def Op.opens : Op → List (List UInt8)
  | .withGroup group => [group]
  | .withAttrs _ => []

/-- The groups a run of calls opens, in order. -/
def opened (ops : List Op) : List (List UInt8) := ops.flatMap Op.opens

/-- One call, on the handler it returns. -/
def Handler.step (h : Handler) : Op → Option Handler
  | .withGroup group => some (h.WithGroup group)
  | .withAttrs attrs => h.WithAttrs Any attrs

/-- A run of calls, each on the handler the one before returned. -/
def Handler.run (h : Handler) : List Op → Option Handler
  | [] => some h
  | op :: ops => (h.step Any op).bind fun h' => h'.run ops

/-- A group whose members are all empty writes nothing. -/
theorem groupObject_empty : groupObject Any [Attr.empty] = some (.ret none) := by
  simp [groupObject_eq, addFields, lad.Skip, Field.addTo]

/-- A group attr whose only member is the empty attr is not dropped: it reaches the core as an
object with nothing inside, and as an inline group after a `WithGroup` it opens that group's
namespace with nothing inside. -/
theorem Handle_empty_group (t : Go.Time) (level : Int) (msg group key : List UInt8)
    (hkey : key ≠ []) :
    (NewHandler.Handle Any ((NewRecord t level msg).AddAttrs [slog.Group key [Attr.empty]])).map
        Prod.snd = some [lad.Object key (.ret none)] ∧
      ((NewHandler.WithGroup group).Handle Any
          ((NewRecord t level msg).AddAttrs [slog.Group [] [Attr.empty]])).map Prod.snd =
        some [lad.Namespace group, lad.Inline (.ret none)] := by
  -- the record keeps the group: it has a member, empty as that member is
  have hattrs : ∀ k, ((NewRecord t level msg).AddAttrs [slog.Group k [Attr.empty]]).attrs =
      [.mk k (.group [Attr.empty])] := fun _ => rfl
  rw [Handler.Handle_eq, Handler.Handle_eq, hattrs, hattrs]
  simp [convertAttrToField_group, groupObject_empty Any, hkey, NewHandler, Handler.WithGroup,
    insertGroups, Field.isSkip, lad.Object, lad.Inline]

end spec

/-- On the key `h`, the group `G` and the zero time. -/
theorem Handle_empty_group_h :
    ascii "h" ≠ [] ∧
      (NewHandler.Handle (fun _ _ => lad.Skip)
          ((NewRecord (unix 0 0) slog.LevelInfo (ascii "m")).AddAttrs
            [slog.Group (ascii "h") [Attr.empty]])).map Prod.snd =
        some [lad.Object (ascii "h") (.ret none)] ∧
      ((NewHandler.WithGroup (ascii "G")).Handle (fun _ _ => lad.Skip)
          ((NewRecord (unix 0 0) slog.LevelInfo (ascii "m")).AddAttrs
            [slog.Group [] [Attr.empty]])).map Prod.snd =
        some [lad.Namespace (ascii "G"), lad.Inline (.ret none)] :=
  ⟨by decide, Handle_empty_group (fun _ _ => lad.Skip) (unix 0 0) slog.LevelInfo (ascii "m")
    (ascii "G") (ascii "h") (by decide)⟩

end ladslog

end Lad
