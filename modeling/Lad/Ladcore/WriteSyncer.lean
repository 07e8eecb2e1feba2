import Mathlib.Data.List.Induction
import Lad.Ladcore.Encoder

/-!
# Write syncers

`multiWriteSyncer.Write` calls every syncer in turn and combines their errors with `multierr`.
A zero count reads as "no count yet", so it returns the smallest count after the last zero
(`multiWriteSyncer.Write_run`), which depends on the order of the syncers
(`multiWriteSyncer_count_order`).
-/

namespace Lad

/-- `multierr.Append(left, right)`, by the text of the error: `nil` if both are `nil`, the one
that is not if only one is, else the two texts joined by `"; "`, as the combined error prints. -/
def multierrAppend : Option Err → Option Err → Option Err
  | none, right => right
  | some left, none => some left
  | some left, some right => some (left ++ ascii "; " ++ right)

@[simp] theorem multierrAppend_none (e : Option Err) : multierrAppend e none = e := by
  cases e <;> rfl

@[simp] theorem multierrAppend_eq_none {l r : Option Err} :
    multierrAppend l r = none ↔ l = none ∧ r = none := by
  cases l <;> cases r <;> simp [multierrAppend]

/-- A `WriteSyncer` writing to a state `σ`: what `Write(p)` returns, the count of bytes written
(from `0` to `len(p)`, by the contract of `io.Writer`) and the error, and what `Sync` returns. -/
structure WriteSyncer (σ : Type) where
  Write : List UInt8 → StateM σ (Nat × Option Err)
  Sync : StateM σ (Option Err)

variable {σ : Type}

namespace multiWriteSyncer

/-- One turn of the count of `multiWriteSyncer.Write`: a zero count so far means unset. -/
def countStep (nWritten n : Nat) : Nat :=
  if nWritten == 0 && n != 0 then n
  else if n < nWritten then n
  else nWritten

/-- `multiWriteSyncer.Write(p)`: the count and the errors so far, over the syncers in turn. -/
def Write (ws : List (WriteSyncer σ)) (p : List UInt8) : StateM σ (Nat × Option Err) :=
  ws.foldlM (fun acc w => do
    let (n, err) ← w.Write p
    let writeErr := multierrAppend acc.2 err
    pure (countStep acc.1 n, writeErr)) (0, none)

def Sync (ws : List (WriteSyncer σ)) : StateM σ (Option Err) :=
  ws.foldlM (fun err w => do
    let e ← w.Sync
    pure (multierrAppend err e)) none

end multiWriteSyncer

/-- `NewMultiWriteSyncer(ws...)`: a single syncer is returned as it is. -/
def NewMultiWriteSyncer (ws : List (WriteSyncer σ)) : WriteSyncer σ :=
  match ws with
  | [w] => w
  | _ => ⟨multiWriteSyncer.Write ws, multiWriteSyncer.Sync ws⟩

/-! ### What the loop computes -/

/-- The count `multiWriteSyncer.Write` returns for the counts of its syncers, in order. -/
def multiWriteCount (ns : List Nat) : Nat := ns.foldl multiWriteSyncer.countStep 0

/-- The counts after the last zero count. -/
def afterLastZero (ns : List Nat) : List Nat := (ns.reverse.takeWhile (· ≠ 0)).reverse

namespace multiWriteSyncer

/-- A count restarts the loop while the count so far is zero, and is a minimum after. -/
theorem countStep_eq (nWritten n : Nat) :
    countStep nWritten n = if nWritten = 0 then n else min nWritten n := by
  unfold countStep
  split_ifs <;> simp_all [Nat.min_def]

/-- The loop is the count of the results, in order, and their errors, in order. -/
theorem foldlM_eq (ws : List (WriteSyncer σ)) (p : List UInt8) :
    ∀ (acc : Nat × Option Err),
      ws.foldlM (fun acc w => do
          let (n, err) ← w.Write p
          let writeErr := multierrAppend acc.2 err
          pure (countStep acc.1 n, writeErr)) acc =
        (do
          let rs ← ws.mapM fun w => w.Write p
          pure ((rs.map Prod.fst).foldl countStep acc.1,
            (rs.map Prod.snd).foldl multierrAppend acc.2)) := by
  induction ws with
  | nil => intro acc; simp
  | cons w ws ih =>
    intro acc
    simp only [List.foldlM_cons, List.mapM_cons, ih, bind_assoc, pure_bind]
    rfl

/-- `Write` calls each syncer's `Write(p)` once, in order, and returns the count of their counts
and their errors combined. -/
theorem Write_eq (ws : List (WriteSyncer σ)) (p : List UInt8) :
    Write ws p = (do
      let rs ← ws.mapM fun w => w.Write p
      pure (multiWriteCount (rs.map Prod.fst), (rs.map Prod.snd).foldl multierrAppend none)) := by
  unfold Write
  rw [foldlM_eq]
  rfl

end multiWriteSyncer

/-- The counts after the last zero, for one more count. -/
theorem afterLastZero_concat (ns : List Nat) (n : Nat) :
    afterLastZero (ns ++ [n]) = if n = 0 then [] else afterLastZero ns ++ [n] := by
  by_cases hn : n = 0 <;> simp [afterLastZero, hn]

/-- A minimum of positive counts is positive. -/
theorem foldl_min_pos : ∀ (x : Nat) (A : List Nat), 0 < x → (∀ m ∈ A, 0 < m) → 0 < A.foldl min x
  | _, [], hx, _ => hx
  | x, m :: A, hx, hA =>
    have hm : 0 < m := hA m (by simp)
    foldl_min_pos (min x m) A (by omega) fun k hk => hA k (by simp [hk])

theorem pos_of_mem_afterLastZero {ns : List Nat} {n : Nat} (h : n ∈ afterLastZero ns) : 0 < n := by
  simp only [afterLastZero, List.mem_reverse] at h
  exact Nat.pos_of_ne_zero (by simpa using List.mem_takeWhile_imp h)

/-- The count is the smallest of the counts after the last zero count, or zero. -/
theorem multiWriteCount_eq (ns : List Nat) :
    multiWriteCount ns = (afterLastZero ns).min?.getD 0 := by
  induction ns using List.reverseRecOn with
  | nil => rfl
  | append_singleton ns n ih =>
    rw [multiWriteCount, List.foldl_append, ← multiWriteCount, ih, afterLastZero_concat]
    by_cases hn : n = 0
    · -- a zero count resets the count, whatever it was
      simp [hn, multiWriteSyncer.countStep_eq]
    · rcases hA : afterLastZero ns with _ | ⟨a, A⟩
      · simp [hn, multiWriteSyncer.countStep_eq]
      · -- the count so far is the minimum of the positive counts `a :: A`, so not zero
        have hpos : ∀ m ∈ a :: A, 0 < m := fun m hm =>
          pos_of_mem_afterLastZero (show m ∈ afterLastZero ns from hA ▸ hm)
        have hmin : 0 < List.foldl min a A :=
          foldl_min_pos a A (hpos a (by simp)) fun m hm => hpos m (by simp [hm])
        simp only [hn, if_false, List.foldl_cons, List.foldl_nil, List.cons_append,
          List.min?_cons', Option.getD_some, List.foldl_append, multiWriteSyncer.countStep_eq,
          if_neg (Nat.pos_iff_ne_zero.1 hmin)]

/-- With no zero count, the count is the minimum. -/
theorem multiWriteCount_of_pos {ns : List Nat} (h : ∀ n ∈ ns, 0 < n) :
    multiWriteCount ns = ns.min?.getD 0 := by
  have hall : ns.reverse.takeWhile (· ≠ 0) = ns.reverse :=
    List.takeWhile_eq_self_iff.2 fun n hn => by simpa using Nat.pos_iff_ne_zero.1 (h n (by simpa using hn))
  rw [multiWriteCount_eq, afterLastZero, hall, List.reverse_reverse]

/-- `Write` calls each syncer's `Write(p)` once, in order, and returns the smallest count after
the last zero count (zero when there is none) and their errors combined. -/
theorem multiWriteSyncer.Write_run (ws : List (WriteSyncer σ)) (p : List UInt8) (s : σ) :
    (multiWriteSyncer.Write ws p).run s =
      let (rs, s') := (ws.mapM fun w : WriteSyncer σ => w.Write p).run s
      (((afterLastZero (rs.map Prod.fst)).min?.getD 0,
        (rs.map Prod.snd).foldl multierrAppend none), s') := by
  -- the count is rewritten under the bind, on the results of the syncers
  simp only [multiWriteSyncer.Write_eq, multiWriteCount_eq]
  rfl

/-- Two syncers: the second writes from the state the first left, and the count is the loop's
over their two counts. -/
theorem multiWriteSyncer.Write_pair_count (w₁ w₂ : WriteSyncer σ) (p : List UInt8) (s : σ) :
    ((multiWriteSyncer.Write [w₁, w₂] p).run s).1.1 =
      multiWriteCount [((w₁.Write p).run s).1.1, ((w₂.Write p).run ((w₁.Write p).run s).2).1.1] := by
  simp only [StateT.run]
  rcases h₁ : w₁.Write p s with ⟨⟨n₁, err₁⟩, s₁⟩
  rcases h₂ : w₂.Write p s₁ with ⟨⟨n₂, err₂⟩, s₂⟩
  have hpure : ∀ (a : Nat × Option Err) (t : σ), (StateT.pure a t : Id _) = (a, t) :=
    fun _ _ => rfl
  simp [multiWriteSyncer.Write, multiWriteCount, bind, StateT.bind, pure, hpure, h₁, h₂]

/-- A syncer that writes nothing and one that writes five bytes: the count is five in one order
and zero in the other, where the minimum is zero in both. -/
theorem multiWriteSyncer_count_order (w₀ w₅ : WriteSyncer σ) (p : List UInt8) (s : σ)
    (h₀ : ∀ s, ((w₀.Write p).run s).1.1 = 0) (h₅ : ∀ s, ((w₅.Write p).run s).1.1 = 5) :
    ((multiWriteSyncer.Write [w₀, w₅] p).run s).1.1 = 5 ∧
      ((multiWriteSyncer.Write [w₅, w₀] p).run s).1.1 = 0 := by
  rw [multiWriteSyncer.Write_pair_count, multiWriteSyncer.Write_pair_count, h₀, h₅, h₅, h₀]
  exact ⟨rfl, rfl⟩

/-- A writer that accepts nothing, as a `Write` on a full device returns. -/
def zeroSyncer : WriteSyncer Unit := ⟨fun _ => pure (0, some (ascii "no space left on device")), pure none⟩

/-- A writer that accepts five bytes. -/
def fiveSyncer : WriteSyncer Unit := ⟨fun _ => pure (5, none), pure none⟩

theorem multiWriteSyncer_count_order_unit :
    ((multiWriteSyncer.Write [zeroSyncer, fiveSyncer] (ascii "hello")).run ()).1.1 = 5 ∧
      ((multiWriteSyncer.Write [fiveSyncer, zeroSyncer] (ascii "hello")).run ()).1.1 = 0 :=
  multiWriteSyncer_count_order zeroSyncer fiveSyncer (ascii "hello") () (fun _ => rfl) fun _ => rfl

end Lad
