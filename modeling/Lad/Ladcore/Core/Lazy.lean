import Lad.Ladcore.Core.Check
import Lad.Ladcore.Core.With

/-!
# The lazy core against `With`

A core with no lazy core in it never reads the `sync.Once` table (`check_setLazy`,
`write_setLazy`). So, before its `sync.Once` has run, `NewLazyWith(c, A)` checks and writes as
`c.With(A)` does (`lazyWith_as_with`), while a `Write` that reaches it directly drops `A`
(`lazyWith_write_drops_fields`).
-/

namespace Lad

namespace World

variable {E : Type} (w : World E) (id : Nat) (s : LazyState E)

@[simp] theorem setLazy_lazies_self : (w.setLazy id s).lazies id = s := by simp [setLazy]

@[simp] theorem setLazy_events : (w.setLazy id s).events = w.events := rfl

@[simp] theorem setLazy_writeErr : (w.setLazy id s).writeErr = w.writeErr := rfl

@[simp] theorem setLazy_hookErr : (w.setLazy id s).hookErr = w.hookErr := rfl

@[simp] theorem setLazy_counters : (w.setLazy id s).counters = w.counters := rfl

theorem setLazy_setCounter (counts : Nat) (slot : Nat × Nat) (c : Counter) :
    (w.setLazy id s).setCounter counts slot c = (w.setCounter counts slot c).setLazy id s := rfl

theorem setLazy_sampled (hook : Option Nat) (ent : Entry) (dec : SamplingDecision) :
    (w.setLazy id s).sampled hook ent dec = (w.sampled hook ent dec).setLazy id s := by
  cases hook <;> rfl

theorem setLazy_foldl_hooks (funcs : List Nat) (ent : Entry) :
    funcs.foldl (fun w f => w.emit (.hook f ent)) (w.setLazy id s) =
      (funcs.foldl (fun w f => w.emit (.hook f ent)) w).setLazy id s := by
  induction funcs generalizing w with
  | nil => rfl
  | cons f funcs ih => exact ih (w.emit (.hook f ent))

end World

namespace Core

variable {E : Type} (ops : EncoderOps E) (id : Nat) (s : LazyState E)

theorem lazyCount_tee {cs : List (Core E)} (h : (Core.tee cs).lazyCount = 0) :
    lazyCountList cs = 0 := by
  simpa [lazyCount] using h

theorem lazyCount_cons {c : Core E} {cs : List (Core E)} (h : lazyCountList (c :: cs) = 0) :
    c.lazyCount = 0 ∧ lazyCountList cs = 0 := by
  simpa [lazyCountList] using h

theorem lazyCountList_eq_zero : ∀ {cs : List (Core E)}, (∀ c ∈ cs, c.lazyCount = 0) →
    lazyCountList cs = 0
  | [], _ => rfl
  | c :: _, h => by
    rw [lazyCountList, h c List.mem_cons_self,
      lazyCountList_eq_zero fun d hd => h d (List.mem_cons_of_mem c hd)]

/-! ### Eager cores do not read the `sync.Once` states -/

mutual

theorem enabled_setLazy : ∀ (c : Core E), c.lazyCount = 0 → ∀ (w : World E) (lvl : Level),
    enabled (w.setLazy id s) c lvl = enabled w c lvl
  | .nop, _, w, lvl => by rw [enabled, enabled]
  | .io .., _, w, lvl => by rw [enabled, enabled]
  | .tee cs, h, w, lvl => by
    rw [enabled, enabled]
    exact enabledList_setLazy cs (lazyCount_tee h) w lvl
  | .hooked c _, h, w, lvl => by
    rw [enabled, enabled]
    exact enabled_setLazy c h w lvl
  | .levelFilter .., _, w, lvl => by rw [enabled, enabled]
  | .sampler c .., h, w, lvl => by
    rw [enabled, enabled]
    exact enabled_setLazy c h w lvl
  | .lazyWith .., h, _, _ => by simp [lazyCount] at h

theorem enabledList_setLazy : ∀ (cs : List (Core E)), lazyCountList cs = 0 →
    ∀ (w : World E) (lvl : Level), enabledList (w.setLazy id s) cs lvl = enabledList w cs lvl
  | [], _, w, lvl => by rw [enabledList, enabledList]
  | c :: cs, h, w, lvl => by
    rw [enabledList, enabledList, enabled_setLazy c (lazyCount_cons h).1,
      enabledList_setLazy cs (lazyCount_cons h).2]

end

mutual

theorem check_setLazy : ∀ (c : Core E), c.lazyCount = 0 →
    ∀ (ent : Entry) (ce : Option (CheckedEntry E)) (w : World E),
      check ops c ent ce (w.setLazy id s) =
        (check ops c ent ce w).map fun r => (r.1, r.2.setLazy id s)
  | .nop, _, ent, ce, w => by rw [check, check]; rfl
  | .io .., _, ent, ce, w => by
    rw [check, check]
    split_ifs <;> rfl
  | .tee cs, h, ent, ce, w => by
    rw [check, check]
    exact checkList_setLazy cs (lazyCount_tee h) ent ce w
  | .hooked c funcs, h, ent, ce, w => by
    rw [check, check, check_setLazy c h]
    cases check ops c ent ce w with
    | none => rfl
    | some r =>
      obtain ⟨down, w'⟩ := r
      cases down <;> rfl
  | .levelFilter c level, h, ent, ce, w => by
    rw [check, check]
    split_ifs
    · rfl
    · exact check_setLazy c h ent ce w
  | .sampler c counts tick first thereafter hook, h, ent, ce, w => by
    rw [check, check, enabled_setLazy id s c h, World.setLazy_counters]
    -- the counters and the hook's events are outside the `sync.Once` states
    split_ifs
    · rfl
    · dsimp only
      generalize (w.counters counts (counterSlot ent.level ent.message)).incCheckReset
        ent.time tick = r
      obtain ⟨n, counter⟩ := r
      dsimp only
      simp only [World.setLazy_setCounter, World.setLazy_sampled]
      split_ifs
      · rfl
      · exact check_setLazy c h ent ce _
    · exact check_setLazy c h ent ce w
  | .lazyWith .., h, _, _, _ => by simp [lazyCount] at h

theorem checkList_setLazy : ∀ (cs : List (Core E)), lazyCountList cs = 0 →
    ∀ (ent : Entry) (ce : Option (CheckedEntry E)) (w : World E),
      checkList ops cs ent ce (w.setLazy id s) =
        (checkList ops cs ent ce w).map fun r => (r.1, r.2.setLazy id s)
  | [], _, ent, ce, w => by rw [checkList, checkList]; rfl
  | c :: cs, h, ent, ce, w => by
    rw [checkList, checkList, check_setLazy c (lazyCount_cons h).1]
    cases check ops c ent ce w with
    | none => rfl
    | some r => exact checkList_setLazy cs (lazyCount_cons h).2 ent r.1 r.2

end

mutual

theorem write_setLazy : ∀ (c : Core E), c.lazyCount = 0 →
    ∀ (ent : Entry) (fields : List Field) (w : World E),
      write ops c ent fields (w.setLazy id s) =
        (write ops c ent fields w).map fun r => (r.1, r.2.setLazy id s)
  | .nop, _, ent, fields, w => by rw [write, write]; rfl
  | .io _ enc out, _, ent, fields, w => by
    rw [write, write]
    cases ops.encodeEntry enc ent fields with
    | none => rfl
    | some bs =>
      simp only [Option.bind_eq_bind, Option.bind_some, World.setLazy_writeErr]
      cases w.writeErr out bs with
      | some err => rfl
      | none => split_ifs <;> rfl
  | .tee cs, h, ent, fields, w => by
    rw [write, write]
    exact writeList_setLazy cs (lazyCount_tee h) ent fields w
  | .hooked _ funcs, _, ent, fields, w => by
    rw [write, write, World.setLazy_foldl_hooks]
    rfl
  | .levelFilter c _, h, ent, fields, w => by
    rw [write, write]
    exact write_setLazy c h ent fields w
  | .sampler c .., h, ent, fields, w => by
    rw [write, write]
    exact write_setLazy c h ent fields w
  | .lazyWith .., h, _, _, _ => by simp [lazyCount] at h

theorem writeList_setLazy : ∀ (cs : List (Core E)), lazyCountList cs = 0 →
    ∀ (ent : Entry) (fields : List Field) (w : World E),
      writeList ops cs ent fields (w.setLazy id s) =
        (writeList ops cs ent fields w).map fun r => (r.1, r.2.setLazy id s)
  | [], _, ent, fields, w => by rw [writeList, writeList]; rfl
  | c :: cs, h, ent, fields, w => by
    rw [writeList, writeList, write_setLazy c (lazyCount_cons h).1]
    cases write ops c ent fields w with
    | none => rfl
    | some r =>
      obtain ⟨errs, w'⟩ := r
      simp only [Option.map_some, Option.bind_eq_bind, Option.bind_some]
      rw [writeList_setLazy cs (lazyCount_cons h).2 ent fields w']
      cases writeList ops cs ent fields w' <;> rfl

end

mutual

theorem with_setLazy : ∀ (c : Core E), c.lazyCount = 0 → ∀ (fields : List Field) (w : World E),
    c.with ops fields (w.setLazy id s) = (c.with ops fields w).map fun r => (r.1, r.2.setLazy id s)
  | .nop, _, fields, w => by rw [Core.with, Core.with]; rfl
  | .io .., _, fields, w => by
    rw [Core.with, Core.with, Option.map_map]
    rfl
  | .tee cs, h, fields, w => by
    rw [Core.with, Core.with, withList_setLazy cs (lazyCount_tee h) fields w]
    cases withList ops cs fields w <;> rfl
  | .hooked c _, h, fields, w => by
    rw [Core.with, Core.with, with_setLazy c h fields w]
    cases c.with ops fields w <;> rfl
  | .levelFilter c _, h, fields, w => by
    rw [Core.with, Core.with, with_setLazy c h fields w]
    cases c.with ops fields w <;> rfl
  | .sampler c .., h, fields, w => by
    rw [Core.with, Core.with, with_setLazy c h fields w]
    cases c.with ops fields w <;> rfl
  | .lazyWith .., h, _, _ => by simp [lazyCount] at h

theorem withList_setLazy : ∀ (cs : List (Core E)), lazyCountList cs = 0 →
    ∀ (fields : List Field) (w : World E),
      withList ops cs fields (w.setLazy id s) =
        (withList ops cs fields w).map fun r => (r.1, r.2.setLazy id s)
  | [], _, fields, w => by rw [withList, withList]; rfl
  | c :: cs, h, fields, w => by
    rw [withList, withList, with_setLazy c (lazyCount_cons h).1]
    cases c.with ops fields w with
    | none => rfl
    | some r =>
      simp only [Option.bind_eq_bind, Option.map_some, Option.bind_some]
      rw [withList_setLazy cs (lazyCount_cons h).2 fields r.2]
      cases withList ops cs fields r.2 <;> rfl

end

/-! ### What `Check` hands to `Write` -/

/-- Every core the entry holds is eager. -/
def AllEager (ce : Option (CheckedEntry E)) : Prop :=
  ∀ x ∈ ce, ∀ c ∈ x.cores, c.lazyCount = 0

theorem allEager_addCore {ce : Option (CheckedEntry E)} (hce : AllEager ce) (ent : Entry)
    {c : Core E} (hc : c.lazyCount = 0) : AllEager (some (CheckedEntry.addCore ce ent c)) := by
  intro x hx d hd
  simp only [Option.mem_def, Option.some.injEq] at hx
  subst hx
  cases ce with
  | none =>
    simp only [CheckedEntry.addCore, List.mem_singleton] at hd
    exact hd ▸ hc
  | some y =>
    simp only [CheckedEntry.addCore, List.mem_append, List.mem_singleton] at hd
    rcases hd with hd | rfl
    · exact hce y rfl d hd
    · exact hc

mutual

/-- `Check` on an eager core adds eager cores only. -/
theorem check_allEager : ∀ (c : Core E), c.lazyCount = 0 →
    ∀ (ent : Entry) (ce : Option (CheckedEntry E)) (w : World E), AllEager ce →
      ∀ r ∈ check ops c ent ce w, AllEager r.1
  | .nop, _, ent, ce, w, hce, r, hr => by
    rw [check, Option.mem_def, Option.some.injEq] at hr
    exact hr ▸ hce
  | .io .., _, ent, ce, w, hce, r, hr => by
    rw [check, Option.mem_def] at hr
    split_ifs at hr
    · cases hr
      exact allEager_addCore hce ent rfl
    · cases hr
      exact hce
  | .tee cs, h, ent, ce, w, hce, r, hr => by
    rw [check] at hr
    exact checkList_allEager cs (lazyCount_tee h) ent ce w hce r hr
  | .hooked c funcs, h, ent, ce, w, hce, r, hr => by
    rw [check, Option.mem_def] at hr
    obtain ⟨⟨down, w₁⟩, hd, hr⟩ := Option.bind_eq_some_iff.1 hr
    have hdown := check_allEager c h ent ce w hce _ hd
    cases down with
    | none =>
      cases hr
      exact hce
    | some d =>
      cases hr
      exact allEager_addCore hdown ent h
  | .levelFilter c _, h, ent, ce, w, hce, r, hr => by
    rw [check, Option.mem_def] at hr
    split_ifs at hr
    · cases hr
      exact hce
    · exact check_allEager c h ent ce w hce r hr
  | .sampler c counts tick first thereafter hook, h, ent, ce, w, hce, r, hr => by
    rw [check, Option.mem_def] at hr
    split_ifs at hr
    · cases hr
      exact hce
    · dsimp only at hr
      generalize (w.counters counts (counterSlot ent.level ent.message)).incCheckReset
        ent.time tick = q at hr
      obtain ⟨n, counter⟩ := q
      dsimp only at hr
      split_ifs at hr
      · cases hr
        exact hce
      · exact check_allEager c h ent ce _ hce r hr
    · exact check_allEager c h ent ce w hce r hr
  | .lazyWith .., h, _, _, _, _, _, _ => by simp [lazyCount] at h

theorem checkList_allEager : ∀ (cs : List (Core E)), lazyCountList cs = 0 →
    ∀ (ent : Entry) (ce : Option (CheckedEntry E)) (w : World E), AllEager ce →
      ∀ r ∈ checkList ops cs ent ce w, AllEager r.1
  | [], _, ent, ce, w, hce, r, hr => by
    rw [checkList, Option.mem_def, Option.some.injEq] at hr
    exact hr ▸ hce
  | c :: cs, h, ent, ce, w, hce, r, hr => by
    rw [checkList, Option.mem_def] at hr
    obtain ⟨⟨ce₁, w₁⟩, h₁, hr⟩ := Option.bind_eq_some_iff.1 hr
    exact checkList_allEager cs (lazyCount_cons h).2 ent ce₁ w₁
      (check_allEager c (lazyCount_cons h).1 ent ce w hce _ h₁) r hr

end

/-- Writing an entry that holds eager cores only does not read the `sync.Once` states. -/
theorem checkedEntry_write_setLazy {ce : Option (CheckedEntry E)} (hce : AllEager ce)
    (fields : List Field) (w : World E) :
    CheckedEntry.write ops ce fields (w.setLazy id s) =
      (CheckedEntry.write ops ce fields w).map fun r => (r.1, r.2.setLazy id s) := by
  cases ce with
  | none => rfl
  | some x =>
    exact writeList_setLazy ops id s x.cores (lazyCountList_eq_zero (hce x rfl)) x.entry fields w

/-! ### The first `Check` or `With` -/

theorem check_lazyWith_pending (c : Core E) (A : List Field) {w : World E}
    (hw : w.lazies id = .pending) (ent : Entry) (ce : Option (CheckedEntry E)) :
    check ops (.lazyWith c A id) ent ce w =
      (c.with ops A w).bind fun r =>
        (check ops r.1.core ent ce r.2).map fun q => (q.1, q.2.setLazy id (.done r.1)) := by
  rw [check, initOnce, hw]
  simp only [Option.bind_eq_bind, Option.bind_assoc, Option.pure_def, Option.bind_some]
  congr 1
  funext r
  exact check_setLazy ops id _ r.1.core r.1.eager ent ce r.2

theorem with_lazyWith_pending (c : Core E) (A : List Field) {w : World E}
    (hw : w.lazies id = .pending) (B : List Field) :
    (Core.lazyWith c A id).with ops B w =
      (c.with ops A w).bind fun r =>
        (r.1.core.with ops B r.2).map fun q => (q.1, q.2.setLazy id (.done r.1)) := by
  rw [Core.with, initOnce, hw]
  simp only [Option.bind_eq_bind, Option.bind_assoc, Option.pure_def, Option.bind_some]
  congr 1
  funext r
  exact with_setLazy ops id _ r.1.core r.1.eager B r.2

mutual

/-- `Sync` never runs a `sync.Once`. -/
theorem sync_lazies : ∀ (c : Core E) (w : World E), (sync c w).lazies = w.lazies
  | .nop, w => by rw [sync]
  | .io .., w => by rw [sync]; rfl
  | .tee cs, w => by
    rw [sync]
    exact syncList_lazies cs w
  | .hooked c _, w => by
    rw [sync]
    exact sync_lazies c w
  | .levelFilter c _, w => by
    rw [sync]
    exact sync_lazies c w
  | .sampler c .., w => by
    rw [sync]
    exact sync_lazies c w
  | .lazyWith c _ id, w => by
    rw [sync]
    split
    · exact sync_lazies c w
    · exact sync_lazies _ w
termination_by c => (c.lazyCount, sizeOf c)
decreasing_by
  all_goals (apply Prod.lex_def.2; simp [lazyCount]; try omega)

theorem syncList_lazies : ∀ (cs : List (Core E)) (w : World E), (syncList cs w).lazies = w.lazies
  | [], w => by rw [syncList]
  | c :: cs, w => by rw [syncList, syncList_lazies cs, sync_lazies c]
termination_by cs => (lazyCountList cs, sizeOf cs)
decreasing_by
  all_goals (apply Prod.lex_def.2; simp [lazyCountList]; try omega)

end

/-- The field of `String(key, s)`. -/
def stringField (key s : List UInt8) : Field := ⟨key, .stringType, 0, s, .nil⟩

/-- A JSON core that takes every entry. -/
def jsonLeaf : Core JsonEncoder :=
  NewCore (newJSONEncoder JsonEncoder.constRuntime JsonEncoder.sampleEncoderConfig false) 0
    ⟨fun _ => true, none⟩

/-! ### The lazy core is `With` deferred -/

theorem lazyWith_as_with (c : Core E) (A : List Field) {w : World E}
    (hw : w.lazies id = .pending) (ent : Entry) {ce : Option (CheckedEntry E)} (hce : AllEager ce)
    (B : List Field) :
    ((check ops (.lazyWith c A id) ent ce w).bind fun r =>
        CheckedEntry.write ops r.1 B r.2).map (fun r => (r.1, r.2.events)) =
      ((c.with ops A w).bind fun r =>
        (check ops r.1.core ent ce r.2).bind fun r =>
          CheckedEntry.write ops r.1 B r.2).map (fun r => (r.1, r.2.events)) ∧
    ((Core.lazyWith c A id).with ops B w).map (fun r => (r.1.core, r.2.events)) =
      ((c.with ops A w).bind fun r => r.1.core.with ops B r.2).map
        (fun r => (r.1.core, r.2.events)) ∧
    (∀ r ∈ check ops (.lazyWith c A id) ent ce w,
      ∃ d w₁, c.with ops A w = some (d, w₁) ∧ r.2.lazies id = .done d) ∧
    (sync (.lazyWith c A id) w).lazies = w.lazies := by
  refine ⟨?checkWrite, ?withFields, ?once, sync_lazies _ w⟩
  case checkWrite =>
    rw [check_lazyWith_pending ops id c A hw]
    cases hA : c.with ops A w with
    | none => rfl
    | some r =>
      obtain ⟨d, w₁⟩ := r
      simp only [Option.bind_some]
      cases hc : check ops d.core ent ce w₁ with
      | none => rfl
      | some q =>
        -- the built core checked into an entry of eager cores, written past the `sync.Once`
        have hq : AllEager q.1 := check_allEager ops d.core d.eager ent ce w₁ hce q hc
        simp only [Option.map_some, Option.bind_some]
        rw [checkedEntry_write_setLazy ops id _ hq, Option.map_map]
        rfl
  case withFields =>
    rw [with_lazyWith_pending ops id c A hw]
    cases c.with ops A w with
    | none => rfl
    | some r =>
      simp only [Option.bind_some, Option.map_map]
      rfl
  case once =>
    intro r hr
    rw [check_lazyWith_pending ops id c A hw, Option.mem_def] at hr
    obtain ⟨⟨d, w₁⟩, hA, hr⟩ := Option.bind_eq_some_iff.1 hr
    obtain ⟨q, -, rfl⟩ := Option.map_eq_some_iff.1 hr
    exact ⟨d, w₁, hA, World.setLazy_lazies_self _ _ _⟩

theorem lazyWith_as_with_leaf :
    ((check (jsonEncoderOps JsonEncoder.constRuntime) (.lazyWith jsonLeaf
        [stringField (ascii "a") (ascii "b")] 0) JsonEncoder.sampleEntry none World.empty).bind
        fun r => CheckedEntry.write (jsonEncoderOps JsonEncoder.constRuntime) r.1 [] r.2).map
          (fun r => (r.1, r.2.events)) =
      ((jsonLeaf.with (jsonEncoderOps JsonEncoder.constRuntime)
        [stringField (ascii "a") (ascii "b")] World.empty).bind fun r =>
        (check (jsonEncoderOps JsonEncoder.constRuntime) r.1.core JsonEncoder.sampleEntry none
          r.2).bind fun r =>
          CheckedEntry.write (jsonEncoderOps JsonEncoder.constRuntime) r.1 [] r.2).map
        (fun r => (r.1, r.2.events)) ∧
    ((Core.lazyWith jsonLeaf [stringField (ascii "a") (ascii "b")] 0).with
        (jsonEncoderOps JsonEncoder.constRuntime) [] World.empty).map
        (fun r => (r.1.core, r.2.events)) =
      ((jsonLeaf.with (jsonEncoderOps JsonEncoder.constRuntime)
        [stringField (ascii "a") (ascii "b")] World.empty).bind fun r =>
        r.1.core.with (jsonEncoderOps JsonEncoder.constRuntime) [] r.2).map
        (fun r => (r.1.core, r.2.events)) ∧
    (∀ r ∈ check (jsonEncoderOps JsonEncoder.constRuntime) (.lazyWith jsonLeaf
        [stringField (ascii "a") (ascii "b")] 0) JsonEncoder.sampleEntry none World.empty,
      ∃ d w₁, jsonLeaf.with (jsonEncoderOps JsonEncoder.constRuntime)
        [stringField (ascii "a") (ascii "b")] World.empty = some (d, w₁) ∧
        r.2.lazies 0 = .done d) ∧
    (sync (.lazyWith jsonLeaf [stringField (ascii "a") (ascii "b")] 0) World.empty).lazies =
      World.empty.lazies :=
  lazyWith_as_with (jsonEncoderOps JsonEncoder.constRuntime) 0 jsonLeaf _ rfl
    JsonEncoder.sampleEntry (fun _ h => by cases h) []

/-- Written before its first `Check`, the lazy core writes the entry without the field it
defers, where the core `With` builds writes it with the field. -/
theorem lazyWith_write_drops_fields :
    ((NewLazyWith jsonLeaf [stringField (ascii "a") (ascii "b")] World.empty).1.write
        (jsonEncoderOps JsonEncoder.constRuntime) JsonEncoder.sampleEntry []
        (NewLazyWith jsonLeaf [stringField (ascii "a") (ascii "b")] World.empty).2).map
      (fun r => r.2.events) ≠
    ((jsonLeaf.with (jsonEncoderOps JsonEncoder.constRuntime) [stringField (ascii "a") (ascii "b")]
        (NewLazyWith jsonLeaf [stringField (ascii "a") (ascii "b")] World.empty).2).bind
      fun r => r.1.core.write (jsonEncoderOps JsonEncoder.constRuntime) JsonEncoder.sampleEntry [] r.2).map
      (fun r => r.2.events) := by
  -- the `sync.Once` has not run, so the lazy core writes through `jsonLeaf`
  simp only [NewLazyWith, jsonLeaf, NewCore, Core.with_io, Option.bind_map, Function.comp_def,
    Core.write, World.empty]
  decide +kernel

end Core

end Lad
