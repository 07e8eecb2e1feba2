import Lad.Ladcore.Core.Basic
import Lad.Lib.FindFirst

/-!
# `LevelOf` against the scan of `Enabled`

Given lawful leaves, `LevelOf` is what the scan of `Enabled` finds whenever some level is enabled
(`levelOf_of_enabled`). `multiCore.Level` starts from `_maxLevel`, so with nothing enabled it
reports `FatalLevel` where the scan finds `InvalidLevel` (`levelOf_tee_nop_nop`).
-/

namespace Lad

/-- A leaf enabler whose `Level()`, if it has one, reports what the scan of its `Enabled`
finds. -/
def LevelEnabler.Lawful (e : LevelEnabler) : Prop := e.levelOf = scanLevel e.enabled

@[simp] theorem invalidLevel_toInt : InvalidLevel.toInt = 6 := by decide

@[simp] theorem fatalLevel_toInt : FatalLevel.toInt = 5 := by decide

theorem levelRange_sorted : levelRange.Pairwise fun a b : Level => a.toInt < b.toInt := by
  decide

theorem lt_invalidLevel : ∀ l ∈ levelRange, l.toInt < InvalidLevel.toInt := by
  decide +kernel

/-- The scan for `f ∨ g` finds the lesser of what the scans for `f` and `g` find. -/
theorem scanLevel_or (f g : Level → Bool) :
    (scanLevel fun l => f l || g l).toInt = min (scanLevel f).toInt (scanLevel g).toInt :=
  List.key_find?_or_getD Int8.toInt levelRange_sorted lt_invalidLevel f g

theorem scanLevel_false : scanLevel (fun _ => false) = InvalidLevel := rfl

/-- A level of the range that is enabled is found: the scan does not end at `InvalidLevel`. -/
theorem scanLevel_ne_invalidLevel {f : Level → Bool} {l : Level} (hl : l ∈ levelRange)
    (hf : f l = true) : scanLevel f ≠ InvalidLevel := by
  unfold scanLevel
  cases h : levelRange.find? f with
  | none => exact absurd hf (by simpa using List.find?_eq_none.1 h l hl)
  | some l' =>
    have hlt := lt_invalidLevel l' (List.mem_of_find?_eq_some h)
    show l' ≠ InvalidLevel
    rintro rfl
    exact lt_irrefl _ hlt

/-- The scan finds a level up to `FatalLevel`, or none. -/
theorem scanLevel_cases (f : Level → Bool) :
    scanLevel f = InvalidLevel ∨ (scanLevel f).toInt ≤ 5 := by
  unfold scanLevel
  cases h : levelRange.find? f with
  | none => exact Or.inl rfl
  | some l =>
    have hle : ∀ l ∈ levelRange, l.toInt ≤ 5 := by decide +kernel
    exact Or.inr (hle l (List.mem_of_find?_eq_some h))

namespace Core

variable {E : Type} (w : World E)

mutual

/-- The leaf enablers that `LevelOf` reads through `Level()` are lawful. -/
def LawfulLeaves : Core E → Prop
  | .nop => True
  | .io enab _ _ => enab.Lawful
  | .tee cs => LawfulLeavesList cs
  | .hooked c _ => LawfulLeaves c
  | .levelFilter _ level => level.Lawful
  | .sampler c .. => LawfulLeaves c
  | .lazyWith .. => True

/-- The leaf enablers below each core of a list are lawful. -/
def LawfulLeavesList : List (Core E) → Prop
  | [] => True
  | c :: cs => LawfulLeaves c ∧ LawfulLeavesList cs

end

theorem enabled_nop : enabled w (.nop : Core E) = fun _ => false := by
  funext lvl
  rw [enabled]

theorem enabled_io (enab : LevelEnabler) (enc : E) (out : Nat) :
    enabled w (.io enab enc out) = enab.enabled := by
  funext lvl
  rw [enabled]

theorem enabled_tee_nil : enabled w (.tee [] : Core E) = fun _ => false := by
  funext lvl
  rw [enabled, enabledList]

theorem enabled_tee_cons (c : Core E) (cs : List (Core E)) :
    enabled w (.tee (c :: cs)) = fun lvl => enabled w c lvl || enabled w (.tee cs) lvl := by
  funext lvl
  rw [enabled, enabledList, enabled]

theorem enabled_hooked (c : Core E) (funcs : List Nat) :
    enabled w (.hooked c funcs) = enabled w c := by
  funext lvl
  rw [enabled]

theorem enabled_levelFilter (c : Core E) (level : LevelEnabler) :
    enabled w (.levelFilter c level) = level.enabled := by
  funext lvl
  rw [enabled]

theorem enabled_sampler (c : Core E) (counts : Nat) (tick : Int) (first thereafter : UInt64)
    (hook : Option Nat) :
    enabled w (.sampler c counts tick first thereafter hook) = enabled w c := by
  funext lvl
  rw [enabled]

/-- One step of the loop of `multiCore.Level` is a minimum. -/
theorem toInt_ite_lt (a m : Level) : (if a < m then a else m).toInt = min a.toInt m.toInt := by
  split_ifs with h
  · exact (min_eq_left (Int8.lt_iff_toInt_lt.1 h).le).symm
  · exact (min_eq_right (not_lt.1 (mt Int8.lt_iff_toInt_lt.2 h))).symm

mutual

/-- `LevelOf` finds what the scan of `Enabled` finds, except that where no level is enabled a
`multiCore` may report `FatalLevel`. -/
theorem levelOf_eq_or_fatal : ∀ c : Core E, LawfulLeaves c →
    levelOf w c = scanLevel (enabled w c) ∨
      (scanLevel (enabled w c) = InvalidLevel ∧ levelOf w c = FatalLevel)
  | .nop, _ => by
    left
    rw [levelOf]
  | .io enab enc out, h => by
    left
    rw [levelOf, enabled_io]
    exact h
  | .tee cs, h => by
    have hq := levelOfList_toInt cs h maxLevel (by decide)
    rcases scanLevel_cases (enabled w (.tee cs)) with hs | hs
    · -- nothing is enabled: the minimum stays at `_maxLevel`
      right
      refine ⟨hs, Int8.toInt_inj.1 ?_⟩
      rw [levelOf, hq, hs]
      decide
    · left
      apply Int8.toInt_inj.1
      rw [levelOf, hq]
      exact min_eq_right (by simpa [maxLevel] using hs)
  | .hooked c funcs, h => by
    rw [levelOf, enabled_hooked]
    exact levelOf_eq_or_fatal c h
  | .levelFilter c level, h => by
    left
    rw [levelOf, enabled_levelFilter]
    exact h
  | .sampler c counts tick first thereafter hook, h => by
    rw [levelOf, enabled_sampler]
    exact levelOf_eq_or_fatal c h
  | .lazyWith c fields id, _ => by
    left
    rw [levelOf]

/-- The loop of `multiCore.Level`, from a level up to `FatalLevel`, is the lesser of it and
the least level the cores enable. -/
theorem levelOfList_toInt : ∀ cs : List (Core E), LawfulLeavesList cs →
    ∀ m : Level, m.toInt ≤ 5 →
      (levelOfList w cs m).toInt = min m.toInt (scanLevel (enabled w (.tee cs))).toInt
  | [], _, m, hm => by
    rw [levelOfList, enabled_tee_nil, scanLevel_false, invalidLevel_toInt]
    omega
  | c :: cs, ⟨hc, hcs⟩, m, hm => by
    have hstep := toInt_ite_lt (levelOf w c) m
    rw [levelOfList, levelOfList_toInt cs hcs _ (by omega), hstep, enabled_tee_cons, scanLevel_or]
    -- a core that enables nothing but reports `FatalLevel` changes nothing below `FatalLevel`
    rcases levelOf_eq_or_fatal c hc with h | ⟨hs, hl⟩
    · rw [h]
      omega
    · rw [hs, hl, invalidLevel_toInt, fatalLevel_toInt]
      omega

end

/-- Where some level from `DebugLevel` to `FatalLevel` is enabled, `LevelOf` is the least of
them. -/
theorem levelOf_of_enabled (c : Core E) (hc : LawfulLeaves c) {l : Level} (hl : l ∈ levelRange)
    (he : enabled w c l = true) : levelOf w c = scanLevel (enabled w c) := by
  rcases levelOf_eq_or_fatal w c hc with h | ⟨hs, -⟩
  · exact h
  · exact absurd hs (scanLevel_ne_invalidLevel hl he)

/-- A no-op core beside a core at `WarnLevel`. -/
theorem levelOf_of_enabled_warn :
    LawfulLeaves (NewTee [NewNopCore, NewCore () 0 WarnLevel.enabler]) ∧ WarnLevel ∈ levelRange ∧
      enabled World.empty (NewTee [NewNopCore, NewCore () 0 WarnLevel.enabler]) WarnLevel = true ∧
      levelOf World.empty (NewTee [NewNopCore, NewCore () 0 WarnLevel.enabler]) =
        scanLevel (enabled World.empty (NewTee [NewNopCore, NewCore () 0 WarnLevel.enabler])) := by
  have hc : LawfulLeaves (NewTee [NewNopCore, NewCore () 0 WarnLevel.enabler]) := by
    simp [NewTee, NewNopCore, NewCore, LawfulLeaves, LawfulLeavesList, LevelEnabler.Lawful,
      LevelEnabler.levelOf, Level.enabler]
  have hl : WarnLevel ∈ levelRange := by decide
  have he : enabled World.empty (NewTee [NewNopCore, NewCore () 0 WarnLevel.enabler])
      WarnLevel = true := by
    simp only [NewTee, NewNopCore, NewCore, enabled_tee_cons, enabled_tee_nil, enabled_nop,
      enabled_io, Level.enabler, Bool.false_or, Bool.or_false]
    decide
  exact ⟨hc, hl, he, levelOf_of_enabled _ _ hc hl he⟩

/-- A tee of two no-op cores: `LevelOf` reports `FatalLevel`, though no level is enabled. -/
theorem levelOf_tee_nop_nop :
    levelOf w (NewTee [NewNopCore, NewNopCore] : Core E) = FatalLevel ∧
      scanLevel (enabled w (NewTee [NewNopCore, NewNopCore] : Core E)) = InvalidLevel := by
  simp only [NewTee, NewNopCore]
  constructor
  · rw [levelOf, levelOfList, levelOfList, levelOfList, levelOf, enabled_nop, scanLevel_false]
    decide
  · rw [enabled_tee_cons, enabled_tee_cons, enabled_tee_nil, enabled_nop]
    simp [scanLevel_false]

end Core

end Lad
