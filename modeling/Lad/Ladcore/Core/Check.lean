import Lad.Ladcore.Core.Basic

/-!
# What `Check` adds

`Check` only adds cores after those already in the `CheckedEntry` (`check_extends`). A `hooked`
core adds itself whenever what its core returned is not nil, so after a sibling accepted the
entry it always does (`check_hooked_of_some`).
-/

namespace Lad

namespace CheckedEntry

variable {E : Type}

/-- `ce'` is `ce` with cores added after the ones it had: a nil entry stays nil, or becomes
one for `ent` with at least one core. -/
def Extends (ent : Entry) : Option (CheckedEntry E) → Option (CheckedEntry E) → Prop
  | none, none => True
  | none, some y => y.entry = ent ∧ y.cores ≠ []
  | some _, none => False
  | some x, some y => y.entry = x.entry ∧ x.cores <+: y.cores

theorem Extends.refl (ent : Entry) : ∀ ce : Option (CheckedEntry E), Extends ent ce ce
  | none => trivial
  | some _ => ⟨rfl, List.prefix_refl _⟩

theorem Extends.trans {ent : Entry} :
    ∀ {ce₁ ce₂ ce₃ : Option (CheckedEntry E)}, Extends ent ce₁ ce₂ → Extends ent ce₂ ce₃ →
      Extends ent ce₁ ce₃
  | none, none, _, _, h => h
  | none, some _, none, _, h => h.elim
  | none, some _, some _, ⟨he, hne⟩, ⟨he', hp⟩ =>
    ⟨he'.trans he, fun h => hne (List.eq_nil_of_prefix_nil (h ▸ hp))⟩
  | some _, none, _, h, _ => h.elim
  | some _, some _, none, _, h => h.elim
  | some _, some _, some _, ⟨he, hp⟩, ⟨he', hp'⟩ => ⟨he'.trans he, hp.trans hp'⟩

theorem extends_addCore (ent : Entry) (core : Core E) :
    ∀ ce : Option (CheckedEntry E), Extends ent ce (some (addCore ce ent core))
  | none => ⟨rfl, List.cons_ne_nil _ _⟩
  | some _ => ⟨rfl, List.prefix_append _ _⟩

/-- An entry that is not nil stays so. -/
theorem Extends.isSome {ent : Entry} {x : CheckedEntry E} {ce' : Option (CheckedEntry E)}
    (h : Extends ent (some x) ce') : ∃ y, ce' = some y := by
  cases ce' with
  | none => exact h.elim
  | some y => exact ⟨y, rfl⟩

end CheckedEntry

namespace Core

open CheckedEntry

variable {E : Type} (ops : EncoderOps E)

/-- `Check` on a sampler, from the decision on: drop it, or pass it to the core. -/
theorem check_sampler_extends {c : Core E} {ent : Entry} {ce ce' : Option (CheckedEntry E)}
    {w' : World E} (hc : ∀ w₁, check ops c ent ce w₁ = some (ce', w') → Extends ent ce ce')
    (drop : Prop) [Decidable drop] (w₁ w₂ : World E)
    (h : (if drop then some (ce, w₁) else check ops c ent ce w₂) = some (ce', w')) :
    Extends ent ce ce' := by
  split_ifs at h
  · cases h
    exact Extends.refl ent ce
  · exact hc w₂ h

mutual

/-- `Check` only adds cores, after the ones the entry had. -/
theorem check_extends : ∀ (c : Core E) (ent : Entry) (ce : Option (CheckedEntry E)) (w : World E)
    {ce' : Option (CheckedEntry E)} {w' : World E},
    check ops c ent ce w = some (ce', w') → Extends ent ce ce'
  | .nop, ent, ce, w, _, _, h => by
    rw [check] at h
    cases h
    exact Extends.refl ent ce
  | .io enab enc out, ent, ce, w, _, _, h => by
    rw [check] at h
    split_ifs at h
    · cases h
      exact extends_addCore ent _ ce
    · cases h
      exact Extends.refl ent ce
  | .tee cs, ent, ce, w, _, _, h => by
    rw [check] at h
    exact checkList_extends cs ent ce w h
  | .hooked c funcs, ent, ce, w, ce', w', h => by
    rw [check] at h
    obtain ⟨⟨down, w₁⟩, hd, h⟩ := Option.bind_eq_some_iff.1 h
    cases down with
    | none =>
      cases h
      exact Extends.refl ent ce
    | some d =>
      cases h
      exact (check_extends c ent ce w hd).trans (extends_addCore ent _ (some d))
  | .levelFilter c level, ent, ce, w, _, _, h => by
    rw [check] at h
    split_ifs at h
    · cases h
      exact Extends.refl ent ce
    · exact check_extends c ent ce w h
  | .sampler c counts tick first thereafter hook, ent, ce, w, ce', w', h => by
    rw [check] at h
    split_ifs at h
    · cases h
      exact Extends.refl ent ce
    · -- the counter decides; either way the core below is checked at most once
      exact check_sampler_extends ops (fun w₁ => check_extends c ent ce w₁) _ _ _ h
    · exact check_extends c ent ce w h
  | .lazyWith c fields id, ent, ce, w, ce', w', h => by
    rw [check] at h
    obtain ⟨⟨d, w₁⟩, -, h⟩ := Option.bind_eq_some_iff.1 h
    exact check_extends d.core ent ce w₁ h
termination_by c => (c.lazyCount, sizeOf c)
decreasing_by
  all_goals (apply Prod.lex_def.2; simp [lazyCount]; try omega)

/-- `multiCore.Check` only adds cores. -/
theorem checkList_extends : ∀ (cs : List (Core E)) (ent : Entry) (ce : Option (CheckedEntry E))
    (w : World E) {ce' : Option (CheckedEntry E)} {w' : World E},
    checkList ops cs ent ce w = some (ce', w') → Extends ent ce ce'
  | [], ent, ce, w, _, _, h => by
    rw [checkList] at h
    cases h
    exact Extends.refl ent ce
  | c :: cs, ent, ce, w, _, _, h => by
    rw [checkList] at h
    obtain ⟨⟨ce₁, w₁⟩, h₁, h⟩ := Option.bind_eq_some_iff.1 h
    exact (check_extends c ent ce w h₁).trans (checkList_extends cs ent ce₁ w₁ h)
termination_by cs => (lazyCountList cs, sizeOf cs)
decreasing_by
  all_goals (apply Prod.lex_def.2; simp [lazyCountList]; try omega)

end

/-- A `hooked` core after an entry that is not nil adds itself, whatever its core did. -/
theorem check_hooked_of_some (c : Core E) (funcs : List Nat) (ent : Entry) (x : CheckedEntry E)
    (w : World E) {ce' : Option (CheckedEntry E)} {w' : World E}
    (h : check ops (.hooked c funcs) ent (some x) w = some (ce', w')) :
    ∃ y, check ops c ent (some x) w = some (some y, w') ∧
      ce' = some (addCore (some y) ent (.hooked c funcs)) := by
  rw [check] at h
  obtain ⟨⟨down, w₁⟩, hd, h⟩ := Option.bind_eq_some_iff.1 h
  -- what the core returns extends an entry that is not nil, so it is not nil
  obtain ⟨y, rfl⟩ := (check_extends ops c ent (some x) w hd).isSome
  cases h
  exact ⟨y, hd, rfl⟩

/-- An entry a sibling filled, and a hooked core whose own `ioCore` turns the entry down: the
hooked core still adds itself. -/
theorem check_hooked_of_some_rejected :
    ∃ y, check ⟨id, fun _ e => some e, fun _ _ _ => none⟩ (.io ⟨fun _ => false, none⟩ () 0)
        ⟨InfoLevel, Go.unix 0 0, [], [], ⟨false, 0, [], 0, []⟩, []⟩
        (some ⟨⟨InfoLevel, Go.unix 0 0, [], [], ⟨false, 0, [], 0, []⟩, []⟩, [.nop]⟩)
        World.empty = some (some y, World.empty) ∧
      some (addCore (some ⟨⟨InfoLevel, Go.unix 0 0, [], [], ⟨false, 0, [], 0, []⟩, []⟩, [.nop]⟩)
          ⟨InfoLevel, Go.unix 0 0, [], [], ⟨false, 0, [], 0, []⟩, []⟩
          (.hooked (.io ⟨fun _ => false, none⟩ () 0) [0])) =
        some (addCore (some y) ⟨InfoLevel, Go.unix 0 0, [], [], ⟨false, 0, [], 0, []⟩, []⟩
          (.hooked (.io ⟨fun _ => false, none⟩ () 0) [0])) :=
  check_hooked_of_some _ (.io ⟨fun _ => false, none⟩ () 0) [0]
    ⟨InfoLevel, Go.unix 0 0, [], [], ⟨false, 0, [], 0, []⟩, []⟩
    ⟨⟨InfoLevel, Go.unix 0 0, [], [], ⟨false, 0, [], 0, []⟩, []⟩, [.nop]⟩ World.empty
    (by simp [check])

/-- A `hooked` core on a nil entry adds itself exactly when a core below it accepted the
entry. -/
theorem check_hooked_of_none (c : Core E) (funcs : List Nat) (ent : Entry) (w : World E)
    {ce' : Option (CheckedEntry E)} {w' : World E}
    (h : check ops (.hooked c funcs) ent none w = some (ce', w')) :
    (check ops c ent none w = some (none, w') ∧ ce' = none) ∨
      ∃ y, check ops c ent none w = some (some y, w') ∧
        ce' = some (addCore (some y) ent (.hooked c funcs)) := by
  rw [check] at h
  obtain ⟨⟨down, w₁⟩, hd, h⟩ := Option.bind_eq_some_iff.1 h
  cases down with
  | none =>
    cases h
    exact Or.inl ⟨hd, rfl⟩
  | some y =>
    cases h
    exact Or.inr ⟨y, hd, rfl⟩

/-- A tee of a leaf that takes every entry and a hooked leaf that takes none: after `Check` and
`Write`, the hook has run on an entry that the leaf it wraps was never given. -/
theorem hooked_after_sibling_runs_hook (enc : E) (ent : Entry) (fields : List Field)
    (hook : Nat) (w : World E) :
    (check ops (NewTee [NewCore enc 0 ⟨fun _ => true, none⟩,
        RegisterHooks (NewCore enc 1 ⟨fun _ => false, none⟩) [hook]]) ent none w).bind
      (fun r => CheckedEntry.write ops r.1 fields r.2) =
    ((NewCore enc 0 ⟨fun _ => true, none⟩).write ops ent fields w).map
      fun r => (r.1 ++ (w.hookErr hook ent).toList, r.2.emit (.hook hook ent)) := by
  simp only [NewTee, NewCore, RegisterHooks]
  -- the tee adds the leaf, then the hooked core, whose own leaf refused the entry
  simp [check, checkList, CheckedEntry.addCore, CheckedEntry.write, writeList, write]
  cases ops.encodeEntry enc ent fields with
  | none => rfl
  | some bs =>
    simp only [Option.bind_some]
    cases w.writeErr 0 bs with
    | some err => cases h : w.hookErr hook ent <;> simp [h, World.emit]
    | none =>
      by_cases hl : ErrorLevel < ent.level <;> cases h : w.hookErr hook ent <;>
        simp [h, hl, World.emit]

end Core

end Lad
