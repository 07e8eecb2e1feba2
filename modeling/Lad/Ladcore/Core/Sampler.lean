import Lad.Ladcore.Core.Lazy

/-!
# Sampler windows

`windowCall` states the documented windows in unbounded integers. From the epoch, and while the
windows end within `int64`, the counter numbers calls as the windows do
(`counterCounts_eq_windowCounts`); past the end of `int64` the window's end wraps and a sampler
forwards an entry its rule drops (`sampler_forwards_after_wrap`).
-/

namespace Lad

open Go

/-- A sampling window as the documentation states it, in unbounded integers: when it ends, and
the calls in it so far. -/
structure Window where
  resetAt : Int
  count : Nat
  deriving DecidableEq

/-- A call at `t`: the next call of the current window if it falls before its end, else the first
of a new window `[t, t + tick)`; with no window yet, the first of a new one. -/
def windowCall (tick t : Int) : Option Window → Window
  | some w => if t < w.resetAt then ⟨w.resetAt, w.count + 1⟩ else ⟨t + tick, 1⟩
  | none => ⟨t + tick, 1⟩

/-- The documented rule: the `k`-th call of a window is forwarded iff `k ≤ first`, or
`thereafter` is not zero and divides `k - first`. -/
def forwards (first thereafter k : Nat) : Bool :=
  k ≤ first || (thereafter != 0 && (k - first) % thereafter == 0)

/-- The numbers the calls at the times `ts` have in their windows. -/
def windowCounts (tick : Int) (w : Option Window) : List Int → List Nat
  | [] => []
  | t :: ts => (windowCall tick t w).count :: windowCounts tick (some (windowCall tick t w)) ts

/-- The numbers `IncCheckReset` gives the calls at the times `ts`, on one counter. -/
def counterCounts (tick : Int) (c : Counter) : List Time → List UInt64
  | [] => []
  | t :: ts => (c.incCheckReset t tick).1 :: counterCounts tick (c.incCheckReset t tick).2 ts

/-! ### The counter refines the windows -/

/-- The counter holds the window: its end, and its count modulo `2^64`. -/
def CounterHolds (c : Counter) (w : Window) : Prop :=
  c.resetAt = w.resetAt ∧ c.counter.toNat = w.count % 2 ^ 64

/-- What the counter holds before a call at `tn`: the current window, or, before any, a window
that ended by `tn`. -/
def HoldsBefore (c : Counter) (tn : Int) : Option Window → Prop
  | some w => CounterHolds c w
  | none => c.resetAt ≤ tn

/-- A window that ends within `int64` is kept exactly. -/
theorem wrap64_window_end {t : Time} {tick : Int} (htick : 0 ≤ tick)
    (hend : t.unixNano + tick < 2 ^ 63) : wrap64 (t.unixNano + tick) = t.unixNano + tick := by
  have hlow := (wrap64_range ((t.sec - unixToInternal) * 1000000000 + t.nsec)).1
  exact wrap64_of_range (by unfold Time.unixNano; omega) hend

/-- A call that opens a window: the counter holds the new window. -/
theorem incCheckReset_reset {c : Counter} {t : Time} {tick : Int} (htick : 0 ≤ tick)
    (hend : t.unixNano + tick < 2 ^ 63) (hreset : ¬c.resetAt > t.unixNano) :
    c.incCheckReset t tick = (1, ⟨t.unixNano + tick, 1⟩) := by
  rw [Counter.incCheckReset, if_neg hreset, wrap64_window_end htick hend]

/-- One call keeps the counter on the window, from an existing window, or from a counter whose
window ended by the time of the first call. -/
theorem incCheckReset_holds {c : Counter} {w : Option Window} (t : Time) {tick : Int}
    (htick : 0 ≤ tick) (hend : t.unixNano + tick < 2 ^ 63) (hw : HoldsBefore c t.unixNano w) :
    CounterHolds (c.incCheckReset t tick).2 (windowCall tick t.unixNano w) ∧
      (c.incCheckReset t tick).1.toNat = (windowCall tick t.unixNano w).count % 2 ^ 64 := by
  cases w with
  | none =>
    rw [incCheckReset_reset htick hend (Int.not_lt.2 hw)]
    exact ⟨⟨rfl, rfl⟩, rfl⟩
  | some w =>
    obtain ⟨hend', hcount⟩ := hw
    by_cases hin : c.resetAt > t.unixNano
    · -- the call falls in the window: both count it
      have hlt : t.unixNano < w.resetAt := hend' ▸ hin
      have hnext : (c.counter + 1).toNat = (w.count + 1) % 2 ^ 64 := by
        rw [UInt64.toNat_add, hcount, UInt64.toNat_one, Nat.mod_add_mod]
      simp only [Counter.incCheckReset, if_pos hin, windowCall, if_pos hlt]
      exact ⟨⟨hend', hnext⟩, hnext⟩
    · have hge : ¬t.unixNano < w.resetAt := hend' ▸ hin
      rw [incCheckReset_reset htick hend hin]
      simp only [windowCall, if_neg hge]
      exact ⟨⟨rfl, rfl⟩, rfl⟩

/-- Over calls whose windows end within `int64`, from a counter whose window ended by the first
call, the counter numbers the calls as the windows do, modulo `2^64`. -/
theorem counterCounts_holds {tick : Int} (htick : 0 ≤ tick) :
    ∀ (ts : List Time) (c : Counter) (w : Option Window),
      (∀ t ∈ ts, t.unixNano + tick < 2 ^ 63) →
      (∀ t ∈ ts.head?, HoldsBefore c t.unixNano w) →
      (counterCounts tick c ts).map UInt64.toNat =
        (windowCounts tick w (ts.map Time.unixNano)).map (· % 2 ^ 64)
  | [], _, _, _, _ => rfl
  | t :: ts, c, w, hend, hfirst => by
    obtain ⟨hholds, hcount⟩ :=
      incCheckReset_holds t htick (hend t (by simp)) (hfirst t (by simp))
    have ih := counterCounts_holds htick ts (c.incCheckReset t tick).2
      (some (windowCall tick t.unixNano w)) (fun t' ht' => hend t' (by simp [ht']))
      (fun _ _ => hholds)
    simp only [counterCounts, windowCounts, List.map_cons, hcount, ih]

/-- From a zero counter, over calls from the Unix epoch on whose windows end within `int64`, the
counter numbers the calls as the documented windows do, modulo `2^64`. -/
theorem counterCounts_eq_windowCounts {tick : Int} (htick : 0 ≤ tick) (ts : List Time)
    (hend : ∀ t ∈ ts, t.unixNano + tick < 2 ^ 63) (hepoch : ∀ t ∈ ts.head?, 0 ≤ t.unixNano) :
    (counterCounts tick ⟨0, 0⟩ ts).map UInt64.toNat =
      (windowCounts tick none (ts.map Time.unixNano)).map (· % 2 ^ 64) :=
  counterCounts_holds htick ts ⟨0, 0⟩ none hend hepoch

theorem counterCounts_eq_windowCounts_after_epoch :
    (0 : Int) ≤ 10 ∧ (∀ t ∈ [unix 0 100, unix 0 105, unix 0 130], t.unixNano + 10 < 2 ^ 63) ∧
      (∀ t ∈ [unix 0 100, unix 0 105, unix 0 130].head?, 0 ≤ t.unixNano) ∧
      (counterCounts 10 ⟨0, 0⟩ [unix 0 100, unix 0 105, unix 0 130]).map UInt64.toNat =
        (windowCounts 10 none ([unix 0 100, unix 0 105, unix 0 130].map Time.unixNano)).map
          (· % 2 ^ 64) := by
  have hend : ∀ t ∈ [unix 0 100, unix 0 105, unix 0 130], t.unixNano + 10 < 2 ^ 63 := by
    simp only [List.mem_cons, List.not_mem_nil, forall_eq_or_imp]
    refine ⟨?_, ?_, ?_, fun _ h => h.elim⟩ <;> rw [unixNano_unix_of_range (by omega) (by omega)] <;>
      omega
  have hepoch : ∀ t ∈ [unix 0 100, unix 0 105, unix 0 130].head?, 0 ≤ t.unixNano := by
    simp only [List.head?_cons, Option.mem_def, Option.some.injEq, forall_eq']
    rw [unixNano_unix_of_range (by omega) (by omega)]
    omega
  exact ⟨by decide, hend, hepoch, counterCounts_eq_windowCounts (by decide) _ hend hepoch⟩

/-- Before the epoch a zero counter is a window still open: calls 50 nanoseconds apart, in
windows of 10, are counted first and second where the documented windows count both first. -/
example :
    counterCounts 10 ⟨0, 0⟩ [unix 0 (-100), unix 0 (-50)] = [1, 2] ∧
      windowCounts 10 none [-100, -50] = [1, 1] := by
  refine ⟨?_, by decide⟩
  simp only [counterCounts, Counter.incCheckReset, unixNano_unix]
  decide

/-- Windows of `10` nanoseconds, and two calls one nanosecond apart, six and five nanoseconds
before the end of `int64`: the end of the first call's window wraps, so the second call opens a
new window, where the documented windows count it second in the first. -/
example :
    counterCounts 10 ⟨0, 0⟩ [unix 0 (2 ^ 63 - 6), unix 0 (2 ^ 63 - 5)] = [1, 1] ∧
      windowCounts 10 none ((([unix 0 (2 ^ 63 - 6), unix 0 (2 ^ 63 - 5)] : List Time)).map
        Time.unixNano) = [1, 2] := by
  have h₁ : (unix 0 (2 ^ 63 - 6)).unixNano = 2 ^ 63 - 6 :=
    unixNano_unix_of_range (by omega) (by omega)
  have h₂ : (unix 0 (2 ^ 63 - 5)).unixNano = 2 ^ 63 - 5 :=
    unixNano_unix_of_range (by omega) (by omega)
  constructor
  · simp only [counterCounts, Counter.incCheckReset, h₁, h₂]
    decide
  · simp only [List.map_cons, List.map_nil, h₁, h₂, windowCounts, windowCall]
    decide

/-- The documented rule drops a call past the first `first`, unless `thereafter` divides its
number past them. -/
theorem forwards_eq_false {first thereafter k : Nat} :
    forwards first thereafter k = false ↔
      first < k ∧ (thereafter = 0 ∨ (k - first) % thereafter ≠ 0) := by
  unfold forwards
  by_cases h0 : thereafter = 0 <;> simp [h0]

/-- The sampler's drop test is the negation of the documented rule, on the counts as numbers. -/
theorem drop_iff_not_forwards (first thereafter n : UInt64) :
    (n > first ∧ (thereafter = 0 ∨ (n - first) % thereafter ≠ 0)) ↔
      forwards first.toNat thereafter.toNat n.toNat = false := by
  rw [forwards_eq_false, gt_iff_lt, UInt64.lt_iff_toNat_lt]
  refine and_congr_right fun hlt => ?_
  -- past `first`, the subtraction does not wrap
  have hsub : ((n - first) % thereafter).toNat = (n.toNat - first.toNat) % thereafter.toNat := by
    rw [UInt64.toNat_mod, UInt64.toNat_sub_of_le _ _ (UInt64.le_of_lt hlt)]
  have hzero : thereafter = 0 ↔ thereafter.toNat = 0 := by rw [← UInt64.toNat_inj]; rfl
  have hmod : (n - first) % thereafter = 0 ↔ (n.toNat - first.toNat) % thereafter.toNat = 0 := by
    rw [← UInt64.toNat_inj, hsub]; rfl
  rw [hzero, ne_eq, hmod]

/-- A sampler's `Check` is the documented rule on the entry's number in its window: when its core
enables the level and the window ends within `int64`, it forwards the entry, calling its hook
with `LogSampled`, exactly when the rule forwards that number (modulo `2^64`), and drops it with
`LogDropped` otherwise; its counter then holds the window. -/
theorem check_sampler_window {E : Type} (ops : EncoderOps E) {c : Core E} {counts : Nat}
    {tick : Int} {first thereafter : UInt64} {hook : Option Nat} {ent : Entry}
    {ce : Option (CheckedEntry E)} {w : World E} {win : Option Window} (htick : 0 ≤ tick)
    (hen : Core.enabled w c ent.level = true) (hrange : minLevel ≤ ent.level ∧ ent.level ≤ maxLevel)
    (hend : ent.time.unixNano + tick < 2 ^ 63)
    (hw : HoldsBefore (w.counters counts (counterSlot ent.level ent.message)) ent.time.unixNano win) :
    ∃ counter, CounterHolds counter (windowCall tick ent.time.unixNano win) ∧
      Core.check ops (.sampler c counts tick first thereafter hook) ent ce w =
        if forwards first.toNat thereafter.toNat
            ((windowCall tick ent.time.unixNano win).count % 2 ^ 64) then
          Core.check ops c ent ce ((w.setCounter counts (counterSlot ent.level ent.message)
            counter).sampled hook ent .LogSampled)
        else some (ce, (w.setCounter counts (counterSlot ent.level ent.message) counter).sampled
          hook ent .LogDropped) := by
  obtain ⟨hholds, hcount⟩ := incCheckReset_holds ent.time htick hend hw
  generalize hp : (w.counters counts (counterSlot ent.level ent.message)).incCheckReset
    ent.time tick = p at hholds hcount
  obtain ⟨n, counter⟩ := p
  refine ⟨counter, hholds, ?_⟩
  -- the sampler's drop test on the counter's number is the negation of the rule on the window's
  have hdrop := drop_iff_not_forwards first thereafter n
  rw [hcount] at hdrop
  rw [Core.check, if_neg (by simp [hen]), if_pos hrange]
  dsimp only
  rw [hp]
  by_cases hf : forwards first.toNat thereafter.toNat
      ((windowCall tick ent.time.unixNano win).count % 2 ^ 64)
  · rw [if_pos hf, if_neg (by rw [hdrop, hf]; decide)]
  · rw [if_neg hf, if_pos (hdrop.2 (by simpa using hf))]

/-- The first entry at the epoch, on a sampler forwarding one entry per `10` nanoseconds. -/
theorem check_sampler_window_first :
    ∃ counter, CounterHolds counter (windowCall 10 JsonEncoder.sampleEntry.time.unixNano none) ∧
      Core.check (jsonEncoderOps JsonEncoder.constRuntime) (.sampler Core.jsonLeaf 0 10 1 0 (some 7))
          JsonEncoder.sampleEntry none World.empty =
        if forwards (1 : UInt64).toNat (0 : UInt64).toNat
            ((windowCall 10 JsonEncoder.sampleEntry.time.unixNano none).count % 2 ^ 64) then
          Core.check (jsonEncoderOps JsonEncoder.constRuntime) Core.jsonLeaf JsonEncoder.sampleEntry
            none ((World.empty.setCounter 0 (counterSlot JsonEncoder.sampleEntry.level
              JsonEncoder.sampleEntry.message) counter).sampled (some 7) JsonEncoder.sampleEntry
                .LogSampled)
        else some (none, (World.empty.setCounter 0 (counterSlot JsonEncoder.sampleEntry.level
          JsonEncoder.sampleEntry.message) counter).sampled (some 7) JsonEncoder.sampleEntry
            .LogDropped) := by
  have htime : JsonEncoder.sampleEntry.time.unixNano = 0 := by
    rw [JsonEncoder.sampleEntry, unixNano_unix_of_range (by omega) (by omega)]
  have hen : Core.enabled World.empty Core.jsonLeaf JsonEncoder.sampleEntry.level = true := by
    simp [Core.jsonLeaf, NewCore, Core.enabled]
  have hrange : minLevel ≤ JsonEncoder.sampleEntry.level ∧ JsonEncoder.sampleEntry.level ≤ maxLevel :=
    by decide
  have hend : JsonEncoder.sampleEntry.time.unixNano + 10 < 2 ^ 63 := by
    rw [htime]
    omega
  have hw : HoldsBefore ((World.empty : World JsonEncoder).counters 0
      (counterSlot JsonEncoder.sampleEntry.level JsonEncoder.sampleEntry.message))
      JsonEncoder.sampleEntry.time.unixNano none := by
    show (0 : Int) ≤ _
    rw [htime]
  exact check_sampler_window _ (by decide) hen hrange hend hw

/-! ### Past the end of `int64` -/

/-- `sampleEntry` at `2^63 - n` nanoseconds. -/
def lateEntry (n : Nat) : Entry := { JsonEncoder.sampleEntry with time := unix 0 (2 ^ 63 - n) }

/-- A sampler forwarding the first entry of each `10` nanoseconds, with a hook: the second of two
entries one nanosecond apart near the end of `int64`, which its rule drops as the second call of
the window, is forwarded as the first of a new one. -/
theorem sampler_forwards_after_wrap :
    ((Core.check (jsonEncoderOps JsonEncoder.constRuntime) (.sampler Core.jsonLeaf 0 10 1 0 (some 7))
          (lateEntry 6) none World.empty).bind fun r =>
        Core.check (jsonEncoderOps JsonEncoder.constRuntime) (.sampler Core.jsonLeaf 0 10 1 0 (some 7))
          (lateEntry 5) none r.2).map (fun r => (r.1.isSome, r.2.events)) =
      some (true, [.sampled 7 (lateEntry 6) .LogSampled, .sampled 7 (lateEntry 5) .LogSampled]) ∧
    forwards 1 0 2 = false := by
  refine ⟨?_, rfl⟩
  simp only [Core.check, Core.enabled, Core.jsonLeaf, NewCore, World.empty]
  decide +kernel

end Lad
